import D9Store.Backend.Written
import D9Store.Node.Mirror
import D9Store.Runs

/-!
Accounts after a restoration.

The account map of the installing node is kept, and the file of the snapshot is merged into it.
So an account that the snapshot does not have stays in force.
-/

namespace D9Store

open Posix FilePath

/-! ### The account map -/

namespace Backend

/-- The entries are a map from access key ids. -/
structure IsMap (b : Backend) : Prop where
  nodup : (b.accounts.map Prod.fst).Nodup
  own : ∀ x ∈ b.accounts, x.2.accessKeyID = x.1

variable {b b' : Backend} {k : String} {a : Account}

theorem IsMap.lookup_eq_some (map : b.IsMap) : b.lookup k = some a ↔ (k, a) ∈ b.accounts := by
  unfold lookup
  constructor
  · intro found
    obtain ⟨x, here, rfl⟩ := Option.map_eq_some_iff.mp found
    have key : x.1 = k := by simpa using List.find?_some here
    rw [← key]
    exact List.mem_of_find?_eq_some here
  · intro mem
    cases found : b.accounts.find? fun x => x.1 == k with
    | none => exact absurd (List.find?_eq_none.mp found _ mem) (by simp)
    | some x =>
      have key : x.1 = k := by simpa using List.find?_some found
      have same := List.inj_on_of_nodup_map map.nodup (List.mem_of_find?_eq_some found) mem key
      rw [same]
      rfl

/-- Maps with the same entries are listed alike. -/
theorem listAccounts_congr (map : b.IsMap) (map' : b'.IsMap)
    (same : ∀ k, b.lookup k = b'.lookup k) : b.listAccounts = b'.listAccounts := by
  have perm : b.accounts.Perm b'.accounts := by
    refine (List.perm_ext_iff_of_nodup map.nodup.of_map map'.nodup.of_map).mpr fun x => ?_
    rw [← map.lookup_eq_some (k := x.1) (a := x.2), ← map'.lookup_eq_some, same]
  have total : Std.Total fun x y : Account => x.accessKeyID ≤ y.accessKeyID :=
    ⟨fun x y => le_total x.accessKeyID y.accessKeyID⟩
  have trans : IsTrans Account fun x y => x.accessKeyID ≤ y.accessKeyID :=
    ⟨fun _ _ _ => le_trans⟩
  refine List.Perm.eq_of_pairwise (fun x y memx memy le ge => ?_)
    (List.pairwise_insertionSort _ _) (List.pairwise_insertionSort _ _)
    ((List.perm_insertionSort _ _).trans ((perm.map Prod.snd).trans (List.perm_insertionSort _ _).symm))
  -- accounts of one map with the same id are the same
  obtain ⟨p, memp, rfl⟩ := List.mem_map.mp ((List.mem_insertionSort _).mp memx)
  obtain ⟨q, memq, rfl⟩ := List.mem_map.mp ((List.mem_insertionSort _).mp memy)
  have key : p.1 = q.1 := by
    rw [← map.own p memp, ← map'.own q memq]
    exact le_antisymm le ge
  rw [List.inj_on_of_nodup_map map.nodup memp (perm.mem_iff.mpr memq) key]

/-! ### The restoration -/

/-- The accounts in force are those of the file. -/
def Persisted (e : Env) (b : Backend) : Prop :=
  e.readDoc b.disk e.accountsPath = .ok (.accounts b.accounts) ∨
    e.readDoc b.disk e.accountsPath = .error (.os .noent) ∧ b.accounts = []

/-- The map of `b` with the entries of `b'` on top. -/
def merged (b b' : Backend) : List (String × Account) :=
  b'.accounts ++ b.accounts.filter fun x => !(b'.accounts.map Prod.fst).contains x.1

theorem find_merged : ((merged b b').find? fun x => x.1 == k) =
    (b'.accounts.find? fun x => x.1 == k).or (b.accounts.find? fun x => x.1 == k) := by
  rw [merged, List.find?_append, List.find?_filter]
  cases found : b'.accounts.find? fun x => x.1 == k with
  | some x => rfl
  | none =>
    simp only [Option.none_or]
    congr 1
    funext x
    by_cases eq : x.1 = k
    · have free : k ∉ b'.accounts.map Prod.fst := fun mem => by
        obtain ⟨y, memy, rfl⟩ := List.mem_map.mp mem
        exact List.find?_eq_none.mp found y memy (by simp)
      simp [eq, free]
    · simp [eq]

theorem IsMap.merge (map : b.IsMap) (map' : b'.IsMap) (s : Disk) :
    IsMap { disk := s, accounts := merged b b' } where
  nodup := by
    rw [merged, List.map_append, List.nodup_append]
    refine ⟨map'.nodup, map.nodup.sublist (List.filter_sublist.map _), fun x memx y memy eq => ?_⟩
    obtain ⟨p, memp, rfl⟩ := List.mem_map.mp memy
    have free : p.1 ∉ b'.accounts.map Prod.fst := by simpa using (List.mem_filter.mp memp).2
    exact free (eq ▸ memx)
  own x mem := by
    rcases List.mem_append.mp mem with mem | mem
    · exact map'.own x mem
    · exact map.own x (List.mem_of_mem_filter mem)

end Backend

theorem accountsPath_eq (e : Env) : e.accountsPath = ["accounts.json"] ++ e.area "iam" := by
  simp [Env.accountsPath, Env.idir, join_plain (show Plain "iam" by decide),
    join_plain (show Plain "accounts.json" by decide), Env.area]

theorem restoreFrom_ok {e : Env} {archive : Archive} {b b₁ : Backend}
    (run : Backend.restoreFrom e archive b = .ok () b₁) :
    ∃ t, e.restoreDisk archive b.disk = .ok () t ∧
      Backend.loadAccounts e { b with disk := t } = .ok () b₁ := by
  cases done : e.restoreDisk archive b.disk with
  | error err t => simp [Backend.restoreFrom, bind_apply, Backend.onDisk, done] at run
  | ok a t =>
    refine ⟨t, rfl, ?_⟩
    simpa [Backend.restoreFrom, bind_apply, Backend.onDisk, done] using run

/-- The file of the accounts is restored. -/
theorem readDoc_accounts {e e' : Env} {b b' : Backend} {t : Disk}
    (alike : e.unmarshalDoc = e'.unmarshalDoc) (persisted : b'.Persisted e')
    (run : e.restoreDisk (e'.snapshotTo b'.disk) b.disk = .ok () t) :
    e.readDoc t e.accountsPath = e'.readDoc b'.disk e'.accountsPath := by
  obtain ⟨s₁, swept, restores⟩ := Env.restoreDisk_restores run
  have bare := Env.sweep_bare swept
  have iam : "iam" ∈ Env.resetDirs := by decide
  have same := restores.content_state bare iam (List.cons_ne_nil "accounts.json" [])
  unfold Backend.Persisted at persisted
  rw [accountsPath_eq] at persisted ⊢
  rw [accountsPath_eq]
  rcases persisted with read | ⟨missing, -⟩
  · obtain ⟨f, file, found⟩ := readDoc_ok read
    rw [content.eq_def b'.disk, file] at same
    obtain ⟨g, file', eq⟩ := Option.map_eq_some_iff.mp same
    have parsed : e.document = e'.document := by
      funext c
      cases c with
      | json doc => rfl
      | raw bytes => exact congrFun alike bytes
    rw [read]
    exact readDoc_of_document file' (by rw [eq, parsed, found])
  · obtain ⟨gone, clear⟩ := Env.readDoc_error_noent missing
    have none : t.get (["accounts.json"] ++ e.area "iam") = none := by
      rcases node : t.get (["accounts.json"] ++ e.area "iam") with _ | _ | f
      · rfl
      · cases gone.symm.trans (restores.dir_state bare iam (List.cons_ne_nil _ _) node)
      · have here := content_eq_none.mp (same.trans (content_eq_none.mpr (DirTree.file_eq_none.mpr (.inl gone))))
        cases here.symm.trans (DirTree.file_eq_some.mpr node)
    rw [missing]
    exact Env.readDoc_absent none fun p above =>
      restores.file_above bare iam (clear _ List.suffix_rfl) above

/-- The restored map: the snapshot's accounts, and what was in force before. -/
theorem restoreFrom_accounts {e e' : Env} {b b' b₁ : Backend}
    (alike : e.unmarshalDoc = e'.unmarshalDoc) (persisted : b'.Persisted e')
    (run : Backend.restoreFrom e (e'.snapshotTo b'.disk) b = .ok () b₁) :
    b₁.accounts = Backend.merged b b' := by
  obtain ⟨t, restored, loaded⟩ := restoreFrom_ok run
  have read := readDoc_accounts alike persisted restored
  unfold Backend.loadAccounts at loaded
  rcases persisted with file | ⟨missing, none⟩
  · rw [read, file] at loaded
    cases loaded
    rfl
  · rw [read, missing] at loaded
    cases loaded
    simp [Backend.merged, none]

/-- The accounts after a restoration are those of the snapshotting node exactly when the
installing node had no others. -/
theorem restore_accounts_iff {e e' : Env} {b b' b₁ : Backend} (map : b.IsMap) (map' : b'.IsMap)
    (alike : e.unmarshalDoc = e'.unmarshalDoc) (persisted : b'.Persisted e')
    (run : Backend.restoreFrom e (e'.snapshotTo b'.disk) b = .ok () b₁) :
    ((∀ k, b₁.lookup k = b'.lookup k) ∧ b₁.listAccounts = b'.listAccounts) ↔
      ∀ x ∈ b.accounts, (b'.lookup x.1).isSome = true := by
  have accounts := restoreFrom_accounts alike persisted run
  have lookup : ∀ k, b₁.lookup k = (b'.lookup k).or (b.lookup k) := fun k => by
    rw [Backend.lookup, accounts, Backend.find_merged, Backend.lookup, Backend.lookup]
    cases b'.accounts.find? fun x => x.1 == k <;> rfl
  constructor
  · rintro ⟨same, -⟩ x mem
    have here := map.lookup_eq_some.mpr (show (x.1, x.2) ∈ b.accounts from mem)
    rw [← same, lookup, here]
    cases b'.lookup x.1 <;> rfl
  · intro known
    have same : ∀ k, b₁.lookup k = b'.lookup k := fun k => by
      rw [lookup]
      cases found : b'.lookup k with
      | some a => rfl
      | none =>
        cases old : b.lookup k with
        | none => rfl
        | some a =>
          have := known (k, a) (map.lookup_eq_some.mp old)
          rw [found] at this
          cases this
    refine ⟨same, ?_⟩
    have map₁ : b₁.IsMap := by
      have := map.merge map' b₁.disk
      rwa [← accounts] at this
    exact Backend.listAccounts_congr map₁ map' same

/-- A backend whose accounts are in its file. -/
def withAccounts (as : List (String × Account)) : Backend :=
  final (Backend.persist (smallEnv false)) { disk := smallDisk false, accounts := as }

def alice : Account := { accessKeyID := "alice", secretKey := "a", role := "user" }

def bob : Account := { accessKeyID := "bob", secretKey := "b", role := "user" }

/-- A node without accounts gets those of the snapshot. -/
theorem restore_gives_accounts :
    ((∀ k, (final (Backend.restoreFrom (smallEnv false)
        ((smallEnv false).snapshotTo (withAccounts [("alice", alice)]).disk)) (withAccounts [])).lookup k =
      (withAccounts [("alice", alice)]).lookup k) ∧
      (final (Backend.restoreFrom (smallEnv false)
        ((smallEnv false).snapshotTo (withAccounts [("alice", alice)]).disk))
          (withAccounts [])).listAccounts = (withAccounts [("alice", alice)]).listAccounts) ↔
      ∀ x ∈ (withAccounts []).accounts, ((withAccounts [("alice", alice)]).lookup x.1).isSome = true :=
  restore_accounts_iff ⟨by decide +kernel, by decide +kernel⟩ ⟨by decide +kernel, by decide +kernel⟩
    rfl (.inl (by decide +kernel)) (run_of_isOk (by decide +kernel))

/-- An account that is gone upstream is accepted after the restoration. -/
theorem restore_keeps_deleted_account :
    (outcome (Backend.restoreFrom (smallEnv false)
        ((smallEnv false).snapshotTo (withAccounts [("alice", alice)]).disk))
        (withAccounts [("bob", bob)])).isOk = true ∧
      (withAccounts [("alice", alice)]).lookup "bob" = none ∧
      (final (Backend.restoreFrom (smallEnv false)
        ((smallEnv false).snapshotTo (withAccounts [("alice", alice)]).disk))
        (withAccounts [("bob", bob)])).lookup "bob" = some bob := by
  decide +kernel

/-! ### Runs of account commands -/

namespace Backend

variable {e : Env} {b b' : Backend}

/-- What an account command makes of the accounts there are. -/
def booked (e : Env) (m : String → Option Account) (c : Command) : String → Option Account :=
  match c.op with
  | .putAccount => (e.unmarshalAccount c.config).elim m fun a =>
      Function.update m a.accessKeyID (some a)
  | _ => Function.update m c.key none

/-- An entry is replaced or taken out. -/
theorem lookup_set (b : Backend) (id : String) (a : Option Account) :
    lookup { b with accounts := (a.map (Prod.mk id)).toList ++ b.accounts.filter (·.1 != id) } =
      Function.update b.lookup id a := by
  funext k
  unfold lookup
  rw [List.find?_append, List.find?_filter]
  by_cases eq : k = id
  · subst eq
    cases a <;> simp [List.find?_eq_none]
  · have other : (fun x : String × Account => decide (x.1 != id ∧ x.1 == k)) = (·.1 == k) := by
      funext x
      by_cases own : x.1 = k <;> simp [own, eq]
    rw [other, Function.update_of_ne eq]
    cases a <;> simp [Ne.symm eq]

/-- The file has the map that was persisted. -/
theorem persist_ok (run : persist e b = .ok () b') : b'.lookup = b.lookup ∧ b'.Persisted e := by
  unfold persist onDisk at run
  dsimp only at run
  split at run
  · rename_i t done
    cases run
    refine ⟨rfl, .inl ?_⟩
    obtain ⟨_, s₁, wrote, moved⟩ := bind_ok.mp done
    have tmp := (writeFile_ok (sys_ok.mp wrote)).2 (Env.jsonTmp e.accountsPath)
    rw [if_pos rfl] at tmp
    have get := (rename_ok_of_file (DirTree.file_eq_some.mpr tmp) (sys_ok.mp moved)).2 e.accountsPath
    rw [if_pos rfl] at get
    unfold Env.readDoc DirTree.readFile
    rw [get]
    cases b.disk.file (Env.jsonTmp e.accountsPath) <;> rfl
  · cases run

theorem apply_account {c : Command} (account : c.op = .putAccount ∨ c.op = .deleteAccount)
    (run : apply e c b = .ok () b') : b'.lookup = booked e b.lookup c ∧ b'.Persisted e := by
  unfold apply at run
  unfold booked
  rcases account with op | op
  · simp only [op, putAccount] at run ⊢
    cases parsed : e.unmarshalAccount c.config with
    | none =>
      rw [parsed] at run
      cases run
    | some a =>
      rw [parsed] at run
      exact (persist_ok run).imp_left (·.trans (lookup_set b _ (some a)))
  · simp only [op, deleteAccount] at run ⊢
    exact (persist_ok run).imp_left (·.trans (lookup_set b _ none))

/-- After any run of account commands the accounts in force are those the commands give, and a node
that starts on the disk has the same. Only the empty run depends on the file there was before. -/
theorem accounts_survive_restart {cs : List Command} (persisted : cs = [] → b.Persisted e)
    (account : ∀ c ∈ cs, c.op = .putAccount ∨ c.op = .deleteAccount)
    (run : cs.forM (apply e) b = .ok () b') :
    b'.lookup = cs.foldl (booked e) b.lookup ∧
      ∃ b'', loadAccounts e { disk := b'.disk } = .ok () b'' ∧ b''.lookup = b'.lookup := by
  have runs : b'.lookup = cs.foldl (booked e) b.lookup ∧ b'.Persisted e := by
    induction cs generalizing b with
    | nil =>
      cases run
      exact ⟨rfl, persisted rfl⟩
    | cons c cs ih =>
      obtain ⟨⟨⟩, b₁, first, rest⟩ := bind_ok.mp run
      obtain ⟨booked, kept⟩ := apply_account (account c List.mem_cons_self) first
      rw [List.foldl_cons, ← booked]
      exact ih (fun _ => kept) (fun c' mem => account c' (List.mem_cons_of_mem _ mem)) rest
  refine ⟨runs.1, ?_⟩
  unfold loadAccounts
  rcases runs.2 with file | ⟨missing, none⟩
  · rw [file]
    exact ⟨_, rfl, by funext k; simp [lookup]⟩
  · rw [missing]
    exact ⟨_, rfl, by funext k; simp [lookup, none]⟩

/-- One account is made and another one deleted. -/
theorem changed_accounts_survive :
    let e := { smallEnv false with unmarshalAccount := fun _ => some bob }
    let cs : List Command := [{ op := .putAccount }, { op := .deleteAccount, key := "alice" }]
    let b' := final (cs.forM (apply e)) (withAccounts [("alice", alice)])
    b'.lookup = cs.foldl (booked e) (withAccounts [("alice", alice)]).lookup ∧
      ∃ b'', loadAccounts e { disk := b'.disk } = .ok () b'' ∧ b''.lookup = b'.lookup :=
  accounts_survive_restart (fun no => by cases no) (by simp) (run_of_isOk (by decide +kernel))

end Backend

end D9Store
