import D9Store.Authz.Evaluate

/-!
Deny statements of bucket policies.

A Deny statement decides a request only if the whole document decodes, so a malformed statement
beside it takes it out of force. A Deny statement whose conditions cannot be decided is passed
over like one whose conditions fail.
-/

namespace D9Store

open Text

namespace PolicyLib

variable {lib : PolicyLib} {req : PolicyRequest} {cond : Condition}

theorem evaluatePolicy_of_parse {text : String} {j : Json} (parsed : lib.parseJSON text = some j) :
    lib.evaluatePolicy text req = lib.evaluateJson j req := by
  have ne : text ≠ "" := by
    rintro rfl
    rw [lib.parse_empty] at parsed
    cases parsed
  simp only [evaluatePolicy, if_neg ne, parsed]

/-! ### Deny among other statements -/

theorem oneArray_alone : OneArray [] "Statement" [] :=
  ⟨by decide, by simp⟩

/-- A statement that denies a request when it stands alone denies it. -/
theorem denies_of_alone {st : Json}
    (alone : lib.evaluateJson (.obj [("Statement", .arr [st])]) req = .deny) :
    lib.deniesJson req st = true := by
  have decision := evaluateJson_policy lib req [st] oneArray_alone
  rw [policy, List.nil_append, alone] at decision
  by_contra no
  rw [Bool.not_eq_true] at no
  simp only [List.any_cons, List.any_nil, no] at decision
  split at decision
  · simp only [Bool.or_false, Bool.false_eq_true, if_false] at decision
    split at decision <;> cases decision
  · cases decision

/-- A document whose array holds a statement that denies on its own denies, exactly if its other
members and all its statements have the shapes they are decoded with. Permuting the statements
changes no decision. -/
theorem deny_wins_iff (req : PolicyRequest) {text name : String} {before after : List (String × Json)} {sts : List Json}
    (parsed : lib.parseJSON text = some (policy before name sts after))
    (array : OneArray before name after) :
    (∀ st ∈ sts, ∀ alone : String,
      lib.parseJSON alone = some (.obj [("Statement", .arr [st])]) →
      lib.evaluatePolicy alone req = .deny →
        (lib.evaluatePolicy text req = .deny ↔
          ((before ++ after).all Json.headMember && sts.all Json.isStatement) = true)) ∧
    ∀ (text' : String) (sts' : List Json), sts'.Perm sts →
      lib.parseJSON text' = some (policy before name sts' after) →
        lib.evaluatePolicy text' req = lib.evaluatePolicy text req := by
  refine ⟨fun st mem alone single denied => ?_, fun text' sts' perm parsed' => ?_⟩
  · rw [evaluatePolicy_of_parse single] at denied
    have some_denies : sts.any (lib.deniesJson req) = true :=
      List.any_eq_true.mpr ⟨st, mem, denies_of_alone denied⟩
    rw [evaluatePolicy_of_parse parsed, evaluateJson_policy _ _ _ array, some_denies]
    split
    · rename_i shaped
      exact iff_of_true rfl shaped
    · rename_i misshapen
      exact iff_of_false (by simp) misshapen
  · rw [evaluatePolicy_of_parse parsed, evaluatePolicy_of_parse parsed', evaluateJson_policy _ _ _ array,
      evaluateJson_policy _ _ _ array, perm.all_eq, perm.any_eq, perm.any_eq]

/-! ### Conditions that cannot be decided -/

def addressOperators : List String := ["ipaddress", "notipaddress"]

def textOperators : List String := ["stringequals", "stringnotequals", "stringlike", "stringnotlike"]

/-- An operator the evaluation knows. -/
def supported (op : String) : Bool := (addressOperators ++ textOperators).contains (toLower op)

/-- The operator takes the key, and the request has a value for it. -/
def decides (lib : PolicyLib) (req : PolicyRequest) (op key : String) : Bool :=
  if addressOperators.contains (toLower op) then
    equalFold key "aws:SourceIp" && (lib.parseIP req.sourceIP).isSome
  else (conditionKeyValue key req).isSome

/-- Every condition can be decided for the request. -/
def decided (lib : PolicyLib) (req : PolicyRequest) (cond : Condition) : Bool :=
  cond.all fun x => supported x.1 && x.2.all fun y => lib.decides req x.1 y.1

/-- What one condition says of the request, `none` when it cannot be decided. -/
def answer (lib : PolicyLib) (req : PolicyRequest) (op key : String) (vals : List String) :
    Option Bool :=
  if lib.decides req op key then some (lib.matchConditionOp op [(key, vals)] req) else none

/-- Some condition is decided, against the statement. -/
def refuted (lib : PolicyLib) (req : PolicyRequest) (cond : Condition) : Bool :=
  cond.any fun x => supported x.1 && x.2.any fun y => lib.answer req x.1 y.1 y.2 == some false

/-- An operator asks for each of its keys separately. -/
theorem matchConditionOp_eq (op : String) (keys : List (String × List String)) :
    lib.matchConditionOp op keys req =
      (supported op && keys.all fun y => lib.matchConditionOp op [y] req) := by
  unfold matchConditionOp supported
  split
  case h_7 n₁ n₂ n₃ n₄ n₅ n₆ =>
    have unknown : (addressOperators ++ textOperators).contains (toLower op) = false := by
      simpa [addressOperators, textOperators] using
        (⟨n₁, n₂, n₃, n₄, n₅, n₆⟩ : _ ∧ _ ∧ _ ∧ _ ∧ _ ∧ _)
    rw [unknown, Bool.false_and]
  all_goals
    rename_i spelled
    simp [spelled, addressOperators, textOperators, evalIP, evalString, evalStringNegated]

/-- Conditions that can be decided, none of them against the statement, are met. -/
theorem matchConditions_of_decided (all : lib.decided req cond = true)
    (none_ : lib.refuted req cond = false) : lib.matchConditions cond req = true := by
  simp only [decided, List.all_eq_true, Bool.and_eq_true] at all
  simp only [refuted, List.any_eq_false, Bool.and_eq_true, not_and, List.any_eq_true] at none_
  refine List.all_eq_true.mpr fun x mem => ?_
  obtain ⟨known, each⟩ := all x mem
  rw [matchConditionOp_eq, known, Bool.true_and, List.all_eq_true]
  intro y memY
  have no := none_ x mem known
  by_contra fails
  rw [Bool.not_eq_true] at fails
  exact no ⟨y, memY, by simp [answer, each y memY, fails]⟩

/-- A condition that cannot be decided is not met. -/
theorem matchConditionOp_undecided {op : String} {y : String × List String}
    (no : lib.decides req op y.1 = false) : lib.matchConditionOp op [y] req = false := by
  unfold decides at no
  unfold matchConditionOp
  split
  case h_7 => rfl
  all_goals
    rename_i spelled
    simp only [spelled, addressOperators] at no
    revert no
    simp only [evalIP, evalString, evalStringNegated, List.all_cons, List.all_nil]
    cases conditionKeyValue y.1 req <;> cases equalFold y.1 "aws:SourceIp" <;>
      cases lib.parseIP req.sourceIP <;> simp

theorem decided_of_matchConditions (met : lib.matchConditions cond req = true) :
    lib.decided req cond = true := by
  refine List.all_eq_true.mpr fun x mem => ?_
  have op := List.all_eq_true.mp met x mem
  rw [matchConditionOp_eq, Bool.and_eq_true, List.all_eq_true] at op
  rw [Bool.and_eq_true, List.all_eq_true]
  refine ⟨op.1, fun y memY => ?_⟩
  by_contra no
  rw [Bool.not_eq_true] at no
  have yes := op.2 y memY
  rw [matchConditionOp_undecided no] at yes
  cases yes

/-- A Deny statement for the request is passed over although no condition of it fails. -/
structure Skipped (lib : PolicyLib) (req : PolicyRequest) (st : Statement) : Prop where
  deny : toLower (trimSpace st.effect) = "deny"
  aimed : targets st req = true
  unmet : lib.matchConditions st.condition req = false
  unrefuted : lib.refuted req st.condition = false

/-- A statement that allows what another one is aimed at. -/
def grant (principal action resource : Json) : Json :=
  .obj [("Effect", .str "Allow"), ("Principal", principal), ("Action", action),
    ("Resource", resource)]

theorem decode_grant (principal action resource : Json) :
    Statement.decode {} (grant principal action resource) =
      some { effect := "Allow", principal := some principal, action := some action,
             resource := some resource } := by
  unfold Statement.decode grant
  rw [Decoder.struct_obj]
  simp +decide [Decoder.fieldOf, Statement.fields, Decoder.field, Decoder.string, Decoder.raw]

/-- Beside a statement that is passed over, one that allows what it is aimed at decides. -/
theorem allowed_beside {s : Json} {st : Statement} (decoded : Statement.decode {} s = some st)
    (skipped : lib.Skipped req st) :
    ∃ j doc, PolicyDoc.decode {} j = some doc ∧ st ∈ doc.statement.toList ∧
      lib.evaluateJson j req = .allow := by
  obtain ⟨principal, hp⟩ : ∃ j, st.principal = some j := by
    refine Option.ne_none_iff_exists'.mp fun none_ => ?_
    have aimed := skipped.aimed
    simp [targets, none_, matchPrincipal] at aimed
  obtain ⟨action, ha⟩ : ∃ j, st.action = some j := by
    refine Option.ne_none_iff_exists'.mp fun none_ => ?_
    have aimed := skipped.aimed
    simp [targets, none_, matchAction, decodeStringOrSlice] at aimed
  obtain ⟨resource, hr⟩ : ∃ j, st.resource = some j := by
    refine Option.ne_none_iff_exists'.mp fun none_ => ?_
    have aimed := skipped.aimed
    simp [targets, none_, matchResource, decodeStringOrSlice] at aimed
  have shaped : s.isStatement = true := by
    rw [← Statement.isSome_decode {}, decoded]
    rfl
  have granted := decode_grant principal action resource
  have shaped' : (grant principal action resource).isStatement = true := by
    rw [← Statement.isSome_decode {}, granted]
    rfl
  have both := decode_policy oneArray_alone [s, grant principal action resource]
  rw [if_pos (by rfl), List.mapM_cons, decoded, List.mapM_cons, granted] at both
  obtain ⟨doc, found, list⟩ := Option.map_eq_some_iff.mp both
  refine ⟨policy [] "Statement" [s, grant principal action resource] [], doc, found, ?_, ?_⟩
  · rw [list]
    exact List.mem_cons_self
  · have aimed := skipped.aimed
    rw [evaluateJson_policy _ _ _ oneArray_alone]
    simp only [targets, hp, ha, hr] at aimed
    have notDenied : lib.deniesJson req s = false := by
      simp [deniesJson, decoded, denies, statementMatches, skipped.unmet]
    have noDeny : lib.deniesJson req (grant principal action resource) = false := by
      have effect : (toLower (trimSpace "Allow") == "deny") = false := by decide
      simp [deniesJson, granted, denies, effect]
    have allow : lib.allowsJson req (grant principal action resource) = true := by
      have effect : (toLower (trimSpace "Allow") == "allow") = true := by decide
      simp only [allowsJson, granted, allows, effect, statementMatches, targets, aimed,
        matchConditions, Option.any_some, List.all_nil, Bool.and_self]
    simp [shaped, shaped', notDenied, noDeny, allow]

/-- A Deny statement for a request is not passed over undecided, in any policy that allows the
request, exactly if all its conditions can be decided or one of them fails. Of `IpAddress` and
`NotIpAddress` exactly one holds if and only if the source address is an address. -/
theorem fails_closed_iff (lib : PolicyLib) (req : PolicyRequest) :
    (∀ (s : Json) (st : Statement), Statement.decode {} s = some st →
      toLower (trimSpace st.effect) = "deny" → targets st req = true →
        ((∀ j doc, PolicyDoc.decode {} j = some doc → st ∈ doc.statement.toList →
            lib.evaluateJson j req = .allow → ¬lib.Skipped req st) ↔
          (lib.decided req st.condition || lib.refuted req st.condition) = true)) ∧
    ∀ cidrs : List String,
      lib.matchConditionOp "IpAddress" [("aws:SourceIp", cidrs)] req =
          (!lib.matchConditionOp "NotIpAddress" [("aws:SourceIp", cidrs)] req) ↔
        (lib.parseIP req.sourceIP).isSome = true := by
  refine ⟨fun s st decoded deny aimed => ⟨fun never => ?_, fun fine j doc _ _ _ skipped => ?_⟩,
    fun cidrs => ?_⟩
  · by_contra undecided
    rw [Bool.not_eq_true, Bool.or_eq_false_iff] at undecided
    have unmet : lib.matchConditions st.condition req = false := by
      by_contra met
      rw [Bool.not_eq_false] at met
      rw [decided_of_matchConditions met] at undecided
      exact Bool.noConfusion undecided.1
    have skipped : lib.Skipped req st := ⟨deny, aimed, unmet, undecided.2⟩
    obtain ⟨j, doc, found, mem, allowed⟩ := allowed_beside decoded skipped
    exact never j doc found mem allowed skipped
  · rw [skipped.unrefuted, Bool.or_false] at fine
    have met := matchConditions_of_decided fine skipped.unrefuted
    rw [skipped.unmet] at met
    cases met
  · have key : equalFold "aws:SourceIp" "aws:SourceIp" = true := by decide
    have positive : lib.matchConditionOp "IpAddress" [("aws:SourceIp", cidrs)] req =
        lib.evalIP [("aws:SourceIp", cidrs)] req false := rfl
    have negative : lib.matchConditionOp "NotIpAddress" [("aws:SourceIp", cidrs)] req =
        lib.evalIP [("aws:SourceIp", cidrs)] req true := rfl
    rw [positive, negative]
    simp only [evalIP, List.all_cons, List.all_nil, key]
    cases lib.parseIP req.sourceIP with
    | none => simp
    | some ip => simp

/-! ### Two policies -/

/-- A library that knows a few texts. -/
def smallLib (texts : List (String × Json)) (wf : texts.lookup "" = none) : PolicyLib where
  parseJSON text := texts.lookup text
  parse_empty := wf
  parseIP text :=
    if text = "10.0.0.1" then some [10, 0, 0, 1]
    else if text = "192.0.2.1" then some [192, 0, 2, 1]
    else none
  parseCIDR text := if text = "10.0.0.0/8" then some ⟨[10, 0, 0, 0], [255, 0, 0, 0]⟩ else none

/-- Mallory reads an object. -/
def malloryReads (sourceIP : String) : PolicyRequest where
  principal := "mallory"
  isAuthenticated := true
  action := "s3:GetObject"
  bucket := "b"
  key := "k"
  sourceIP := sourceIP

def statementJson (effect : String) (more : List (String × Json)) : Json :=
  .obj ([("Effect", .str effect), ("Principal", .str "*"), ("Action", .str "s3:*"),
    ("Resource", .str "*")] ++ more)

/-- The statement as it is written in a document. -/
def statementText (effect more : String) : String :=
  "\x7b\"Effect\":\"" ++ effect ++ "\",\"Principal\":\"*\",\"Action\":\"s3:*\",\"Resource\":\"*\"" ++
    more ++ "\x7d"

/-- A Deny statement alone. -/
def denyAlone : String := "\x7b\"Statement\":[" ++ statementText "Deny" "" ++ "]\x7d"

theorem denyAlone_ne : ("" == denyAlone) = false := by decide

/-- The same between an Allow statement and one whose `Sid` is as given. -/
def denyBetween (sid : String) : String :=
  "\x7b\"Version\":\"2012-10-17\",\"Statement\":[" ++ (statementText "Allow" "" ++ "," ++
    statementText "Deny" "" ++ "," ++ statementText "Allow" (",\"Sid\":" ++ sid) ++ "]\x7d")

theorem denyBetween_ne (sid : String) : denyBetween sid ≠ "" := fun eq =>
  absurd (String.append_eq_empty_iff.mp eq).1 (by decide)

/-- The two documents, for a `Sid` and its text. -/
def denyLib (text : String) (sid : Json) : PolicyLib :=
  smallLib
    [(denyAlone, .obj [("Statement", .arr [statementJson "Deny" []])]),
     (denyBetween text, policy [("Version", .str "2012-10-17")] "Statement"
       [statementJson "Allow" [], statementJson "Deny" [], statementJson "Allow" [("Sid", sid)]] [])]
    (by simp [List.lookup, beq_eq_false_iff_ne.mpr (denyBetween_ne text).symm, denyAlone_ne])

theorem deny_wins_between :
    (denyLib "\"s\"" (.str "s")).evaluatePolicy (denyBetween "\"s\"") (malloryReads "10.0.0.1") =
      .deny := by
  have parsed : (denyLib "\"s\"" (.str "s")).parseJSON (denyBetween "\"s\"") =
      some (policy [("Version", .str "2012-10-17")] "Statement"
        [statementJson "Allow" [], statementJson "Deny" [],
          statementJson "Allow" [("Sid", .str "s")]] []) := by
    have other : (denyBetween "\"s\"" == denyAlone) = false := by decide +kernel
    simp [denyLib, smallLib, List.lookup, other]
  have wins := deny_wins_iff (malloryReads "10.0.0.1") parsed ⟨by decide, by decide⟩
  exact (wins.1 (statementJson "Deny" []) (by simp) denyAlone
    (by simp [denyLib, smallLib, List.lookup]) (by decide +kernel)).mpr
    (by decide +kernel)

/-- With a number as the `Sid` of another statement the document no longer denies. -/
theorem deny_lost_beside_number :
    (denyLib "7" (.num "7")).evaluatePolicy denyAlone (malloryReads "10.0.0.1") = .deny ∧
      (denyLib "7" (.num "7")).evaluatePolicy (denyBetween "7") (malloryReads "10.0.0.1") =
        .none := by
  decide +kernel

/-- Everyone is allowed, but not from outside one network. -/
def fenced : Json :=
  policy [] "Statement"
    [statementJson "Allow" [],
     statementJson "Deny"
       [("Condition", .obj [("NotIpAddress", .obj [("aws:SourceIp", .str "10.0.0.0/8")])])]] []

instance (lib : PolicyLib) (req : PolicyRequest) (st : Statement) :
    Decidable (lib.Skipped req st) :=
  decidable_of_iff (toLower (trimSpace st.effect) = "deny" ∧ targets st req = true ∧
      lib.matchConditions st.condition req = false ∧ lib.refuted req st.condition = false)
    ⟨fun h => ⟨h.1, h.2.1, h.2.2.1, h.2.2.2⟩, fun h => ⟨h.1, h.2, h.3, h.4⟩⟩

/-- A request whose source is no address passes the fence, one from outside does not. -/
theorem fence_passed_from_nowhere :
    (∃ doc st, PolicyDoc.decode {} fenced = some doc ∧ st ∈ doc.statement.toList ∧
      (smallLib [] rfl).evaluateJson fenced (malloryReads "unknown") = .allow ∧
      (smallLib [] rfl).Skipped (malloryReads "unknown") st) ∧
    (smallLib [] rfl).evaluateJson fenced (malloryReads "192.0.2.1") = .deny ∧
    ∀ op ∈ ["IpAddress", "NotIpAddress"],
      (smallLib [] rfl).matchConditionOp op [("aws:SourceIp", ["10.0.0.0/8"])]
        (malloryReads "unknown") = false := by
  have found : (PolicyDoc.decode {} fenced).any (fun doc => doc.statement.toList.any fun st =>
      decide ((smallLib [] rfl).Skipped (malloryReads "unknown") st)) = true := by
    decide +kernel
  obtain ⟨doc, decoded⟩ : ∃ doc, PolicyDoc.decode {} fenced = some doc :=
    Option.isSome_iff_exists.mp (by decide +kernel)
  rw [decoded] at found
  obtain ⟨st, mem, skipped⟩ := List.any_eq_true.mp found
  exact ⟨⟨doc, st, decoded, mem, by decide +kernel, of_decide_eq_true skipped⟩,
    by decide +kernel, by decide +kernel⟩

end PolicyLib

end D9Store
