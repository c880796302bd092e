import D9Store.Results.SignatureScope
import Mathlib.Data.Nat.Digits.Defs

/-!
The window of a presigned URL.

The verifier multiplies the seconds of `X-Amz-Expires` out to nanoseconds in 64 bits before it adds
them to the signing time. From 9223372037 seconds on the product wraps around, and a URL that is
still valid may be refused. A URL that has expired is never accepted: the wrapped duration is not
longer than the real one.
-/

namespace D9Store.Auth

open Text Posix

/-! ### Decimal numbers -/

/-- The value of a decimal digit. -/
def digitValue (d : Char) : Nat := d.toNat - 48

/-- The text is the number `n` in decimal digits, with or without a plus sign. -/
def Decimal (text : String) (n : Nat) : Prop :=
  ∃ digits : List Char, (text.toList = digits ∨ text.toList = '+' :: digits) ∧ digits ≠ [] ∧
    (∀ d ∈ digits, d.isDigit = true) ∧ n = Nat.ofDigits 10 (digits.reverse.map digitValue)

/-- Reading one more digit. -/
theorem digit_eq (acc : Nat) (d : Char) :
    atoi.digit acc d = if d.isDigit = true then some ((10 * acc + digitValue d : Nat) : Int) else none := by
  unfold atoi.digit digitValue
  split
  · rename_i digit
    have low : 48 ≤ d.toNat := by
      have bounds := (Bool.and_eq_true _ _ ▸ digit : _ ∧ _).1
      exact of_decide_eq_true bounds
    rw [Nat.cast_add, Nat.cast_sub low]
    rfl
  · rfl

variable {digits : List Char} {n : Int}

/-- Reading digits from the left adds them below what was read. -/
theorem foldlM_digit {acc : Nat} :
    digits.foldlM atoi.digit (acc : Int) = some n ↔
      (∀ d ∈ digits, d.isDigit = true) ∧
        n = (acc * 10 ^ digits.length + Nat.ofDigits 10 (digits.reverse.map digitValue) : Nat) := by
  induction digits generalizing acc with
  | nil =>
    rw [List.foldlM_nil, Option.pure_def, Option.some_inj]
    simp only [List.not_mem_nil, List.length_nil, List.reverse_nil, List.map_nil, Nat.ofDigits_nil,
      pow_zero, mul_one, add_zero]
    exact ⟨fun eq => ⟨fun _ h => h.elim, eq.symm⟩, fun h => h.2.symm⟩
  | cons d rest ih =>
    rw [List.foldlM_cons, digit_eq]
    by_cases digit : d.isDigit = true
    · rw [if_pos digit, Option.bind_eq_bind, Option.bind_some, ih]
      have value : Nat.ofDigits 10 ((d :: rest).reverse.map digitValue) =
          Nat.ofDigits 10 (rest.reverse.map digitValue) + 10 ^ rest.length * digitValue d := by
        rw [List.reverse_cons, List.map_append, Nat.ofDigits_append]
        simp
      have shift : (10 * acc + digitValue d) * 10 ^ rest.length +
          Nat.ofDigits 10 (rest.reverse.map digitValue) =
        acc * 10 ^ (d :: rest).length + Nat.ofDigits 10 ((d :: rest).reverse.map digitValue) := by
        rw [value, List.length_cons, pow_succ]
        ring
      rw [shift, List.forall_mem_cons, and_iff_right digit]
    · simp [digit]

theorem bounded_some {value : Option Int} :
    atoi.bounded value digits = some n ↔
      digits ≠ [] ∧ value = some n ∧ -2 ^ 63 ≤ n ∧ n < 2 ^ 63 := by
  unfold atoi.bounded
  by_cases empty : digits = []
  · simp [empty]
  · cases value with
    | none => simp [empty]
    | some m =>
      rw [if_neg empty, Option.bind_some]
      constructor
      · intro read
        split at read
        · cases read
          exact ⟨empty, rfl, ‹_›⟩
        · cases read
      · rintro ⟨-, ⟨⟩, range⟩
        rw [if_pos range]

/-- Digits of 63 bits are read as the number they are. -/
theorem bounded_digits :
    atoi.bounded (digits.foldlM atoi.digit 0) digits = some n ↔
      digits ≠ [] ∧ (∀ d ∈ digits, d.isDigit = true) ∧
        n = (Nat.ofDigits 10 (digits.reverse.map digitValue) : Nat) ∧ n < 2 ^ 63 := by
  rw [bounded_some, show (0 : Int) = ((0 : Nat) : Int) from rfl, foldlM_digit, Nat.zero_mul, Nat.zero_add]
  constructor
  · rintro ⟨some, ⟨all, value⟩, -, below⟩
    exact ⟨some, all, value, below⟩
  · rintro ⟨some, all, value, below⟩
    exact ⟨some, ⟨all, value⟩, by omega, below⟩

variable {text : String}

/-- The positive numbers `Atoi` reads are the decimal numbers of 63 bits. -/
theorem atoi_positive_iff (positive : 0 < n) :
    atoi text = some n ↔ ∃ m : Nat, n = m ∧ Decimal text m ∧ m < 2 ^ 63 := by
  have read (digits : List Char) (form : text.toList = digits ∨ text.toList = '+' :: digits) :
      atoi.bounded (digits.foldlM atoi.digit 0) digits = some n →
        ∃ m : Nat, n = m ∧ Decimal text m ∧ m < 2 ^ 63 := by
    intro h
    obtain ⟨some, all, value, below⟩ := bounded_digits.mp h
    exact ⟨_, value, ⟨digits, form, some, all, rfl⟩, by omega⟩
  unfold atoi
  constructor
  · intro h
    split at h
    · exact read _ (.inr ‹_›) h
    · obtain ⟨-, negative, -⟩ := bounded_some.mp h
      obtain ⟨m, value, rfl⟩ := Option.map_eq_some_iff.mp negative
      rename_i digits _
      rw [show (0 : Int) = ((0 : Nat) : Int) from rfl, foldlM_digit] at value
      omega
    · exact read _ (.inl rfl) h
  · rintro ⟨m, rfl, ⟨digits, form, some, all, rfl⟩, below⟩
    have value := bounded_digits.mpr ⟨some, all, rfl, by exact_mod_cast below⟩
    rcases form with form | form
    · rw [form]
      -- a sign is no digit
      split
      · exact absurd (all '+' List.mem_cons_self) (by decide)
      · exact absurd (all '-' List.mem_cons_self) (by decide)
      · exact value
    · rw [form]
      exact value

theorem decimal_unique {n m : Nat} (h : Decimal text n) (h' : Decimal text m) (positive : 0 < n)
    (below : n < 2 ^ 63) (positive' : 0 < m) (below' : m < 2 ^ 63) : n = m := by
  have read := (atoi_positive_iff (by omega : (0 : Int) < n)).mpr ⟨n, rfl, h, below⟩
  have read' := (atoi_positive_iff (by omega : (0 : Int) < m)).mpr ⟨m, rfl, h', below'⟩
  rw [read] at read'
  exact Int.ofNat.inj (Option.some.inj read')

/-! ### The window -/

/-- The window of a presigned URL over the integers: from a quarter of an hour before the signing
time to as many seconds after it as `X-Amz-Expires` says. -/
def Window (expires : String) (signingTime now : Int) : Prop :=
  ∃ n : Nat, Decimal expires n ∧ 0 < n ∧ n < 2 ^ 63 ∧ signingTime - 15 * 60 * 10 ^ 9 ≤ now ∧
    now ≤ signingTime + n * 10 ^ 9

/-- The clock is in the window, and past the end that a duration of 64 bits gives it. -/
def CutOff (expires : String) (signingTime now : Int) : Prop :=
  ∃ n : Nat, Decimal expires n ∧ 0 < n ∧ n < 2 ^ 63 ∧ signingTime - 15 * 60 * 10 ^ 9 ≤ now ∧
    signingTime + wrap64 (n * 10 ^ 9) < now ∧ now ≤ signingTime + n * 10 ^ 9

theorem checkWindow_iff {expires : String} {signingTime now : Int} :
    checkWindow expires signingTime now = .ok () ↔
      ∃ n : Nat, Decimal expires n ∧ 0 < n ∧ n < 2 ^ 63 ∧
        signingTime - 15 * 60 * 10 ^ 9 ≤ now ∧ now ≤ signingTime + wrap64 (n * 10 ^ 9) := by
  have skew : maxClockSkew = 15 * 60 * 10 ^ 9 := by decide
  have nano : second = 10 ^ 9 := by decide
  rw [checkWindow_ok_iff, skew, nano]
  constructor
  · rintro ⟨seconds, read, positive, started, lasting⟩
    obtain ⟨n, rfl, decimal, below⟩ := (atoi_positive_iff positive).mp read
    exact ⟨n, decimal, by omega, below, started, lasting⟩
  · rintro ⟨n, decimal, positive, below, started, lasting⟩
    have read := (atoi_positive_iff (by omega : (0 : Int) < n)).mpr ⟨n, rfl, decimal, below⟩
    exact ⟨n, read, by omega, started, lasting⟩

namespace Verifier

variable {v : Verifier} {lookup : String → Option Account} {w : Wire} {r : HTTPRequest}
    {cred : CredentialScope} {signingTime : Int}

/-- The later checks fail with other errors than the time checks. -/
theorem checkPresigned_ne {err : Err} {expires : String} {now : Int}
    (failed : checkWindow expires signingTime now = .error err) :
    v.checkPresigned lookup w r cred ≠ .error err := by
  obtain ⟨msg, refused⟩ := checkWindow_error failed
  unfold checkPresigned
  split
  · rcases refused with rfl | rfl <;> simp [errInvalidAccessKey, errMalformedQuery, errDenied]
  · split
    · rcases refused with rfl | rfl <;> simp [errSignatureMismatch, errMalformedQuery, errDenied]
    · exact fun same => by cases same

/-- A URL comes to the check of its signature exactly when it passes the time checks. -/
theorem verifyPresigned_passes_iff (scope : v.presignedScope r = .ok (cred, signingTime))
    (now : Int) :
    v.verifyPresigned lookup now w r = v.checkPresigned lookup w r cred ↔
      checkWindow (r.query.get "X-Amz-Expires") signingTime now = .ok () := by
  rw [verifyPresigned_eq, scope, except_ok_bind]
  cases checked : checkWindow (r.query.get "X-Amz-Expires") signingTime now with
  | ok _ => simp
  | error err =>
    rw [except_error_bind]
    exact iff_of_false (fun same => checkPresigned_ne checked same.symm) (by simp)

/-- A presigned URL with its signing parameters in order passes the time checks, and so comes to the
check of its key and signature, exactly within its window, unless the window is cut off. -/
theorem presigned_window_iff {cred : CredentialScope} {signingTime : Int}
    (scope : v.presignedScope r = .ok (cred, signingTime)) (now : Int) :
    ((v.verifyPresigned lookup now w r = v.checkPresigned lookup w r cred) ↔
        Window (r.query.get "X-Amz-Expires") signingTime now) ↔
      ¬ CutOff (r.query.get "X-Amz-Expires") signingTime now := by
  rw [verifyPresigned_passes_iff scope, checkWindow_iff]
  constructor
  · rintro exact_ ⟨n, decimal, positive, below, started, wrapped, lasting⟩
    obtain ⟨m, decimal', positive', below', -, lasting'⟩ :=
      exact_.mpr ⟨n, decimal, positive, below, started, lasting⟩
    have same := decimal_unique decimal decimal' positive below positive' below'
    subst same
    omega
  · intro whole
    constructor
    · rintro ⟨n, decimal, positive, below, started, lasting⟩
      have shorter : wrap64 (n * 10 ^ 9) ≤ n * 10 ^ 9 := wrap64_le (by omega)
      exact ⟨n, decimal, positive, below, started, by omega⟩
    · rintro ⟨n, decimal, positive, below, started, lasting⟩
      refine ⟨n, decimal, positive, below, started, ?_⟩
      by_contra cut
      exact whole ⟨n, decimal, positive, below, started, by omega, lasting⟩

end Verifier

/-! ### Two presigned reads -/

def toyCredential : CredentialScope :=
  { accessKeyID := "al", date := "20240101", region := "us-east-1", service := "s3",
    scope := "20240101/us-east-1/s3/aws4_request" }

/-- A read that `al` presigns for the number of seconds. -/
def readFor (seconds : String) : HTTPRequest :=
  { localRead with query := localRead.query.map fun (name, values) =>
      (name, if name = "X-Amz-Expires" then [seconds] else values) }

theorem minute_window :
    toyVerifier.verifyPresigned toyLookup (5 * second) toyWire (readFor "60") =
        toyVerifier.checkPresigned toyLookup toyWire (readFor "60") toyCredential ↔
      Window ((readFor "60").query.get "X-Amz-Expires") 0 (5 * second) := by
  refine (Verifier.presigned_window_iff (by decide +kernel) (5 * second)).mpr ?_
  rintro ⟨n, decimal, positive, below, -, wrapped, -⟩
  have read := (atoi_positive_iff (by omega : (0 : Int) < n)).mpr ⟨n, rfl, decimal, below⟩
  have sixty : atoi ((readFor "60").query.get "X-Amz-Expires") = some 60 := by decide +kernel
  rw [sixty] at read
  obtain rfl : n = 60 := by have := Option.some.inj read; omega
  revert wrapped
  decide

/-- Signed for 292 years, the read is refused as expired after five seconds. -/
theorem long_window_cut_off :
    toyVerifier.presignedScope (readFor "9223372037") = .ok (toyCredential, 0) ∧
      Window ((readFor "9223372037").query.get "X-Amz-Expires") 0 (5 * second) ∧
      toyVerifier.verifyPresigned toyLookup (5 * second) toyWire (readFor "9223372037") =
        .error (errDenied "Request has expired") := by
  have scope : toyVerifier.presignedScope (readFor "9223372037") = .ok (toyCredential, 0) := by
    decide +kernel
  have late : checkWindow ((readFor "9223372037").query.get "X-Amz-Expires") 0 (5 * second) =
      .error (errDenied "Request has expired") := by
    decide +kernel
  refine ⟨scope, ?_, by rw [Verifier.verifyPresigned_eq, scope, except_ok_bind, late]; rfl⟩
  have read : atoi ((readFor "9223372037").query.get "X-Amz-Expires") = some 9223372037 := by
    decide +kernel
  obtain ⟨n, eq, decimal, below⟩ := (atoi_positive_iff (by decide)).mp read
  obtain rfl : n = 9223372037 := by omega
  exact ⟨9223372037, decimal, by decide, by decide, by decide, by decide⟩

end D9Store.Auth
