import D9Store.Authz.Policy

/-!
What a policy document decides, in closed form.

A document is decoded as a whole. The shapes below are the JSON values that decode; the decision
on a document is that on its statements if they all have their shape, and none otherwise.
-/

namespace D9Store

open Text

/-! ### Shapes -/

namespace Json

/-- A string, or `null` for the empty one. -/
def isText : Json → Bool
  | .null | .str _ => true
  | _ => false

/-- A text or a list of texts. -/
def isTexts : Json → Bool
  | .null | .str _ => true
  | .arr js => js.all isText
  | _ => false

/-- Keys with the values expected for them. -/
def isKeys : Json → Bool
  | .null => true
  | .obj members => members.all fun m => m.2.isTexts
  | _ => false

/-- Operators with their keys. -/
def isCondition : Json → Bool
  | .null => true
  | .obj members => members.all fun m => m.2.isKeys
  | _ => false

/-- A member a statement may have: only `Sid`, `Effect` and `Condition` are decoded with it. -/
def statementMember (m : String × Json) : Bool :=
  if equalFold "Sid" m.1 || equalFold "Effect" m.1 then m.2.isText
  else if equalFold "Principal" m.1 || equalFold "Action" m.1 || equalFold "Resource" m.1 then true
  else if equalFold "Condition" m.1 then m.2.isCondition
  else true

def isStatement : Json → Bool
  | .null => true
  | .obj members => members.all statementMember
  | _ => false

/-- A member a document may have beside its statements. -/
def headMember (m : String × Json) : Bool :=
  if equalFold "Version" m.1 || equalFold "Id" m.1 then m.2.isText else true

end Json

/-! ### What decodes -/

theorem isSome_string (old : String) (j : Json) : (Decoder.string old j).isSome = j.isText := by
  cases j <;> rfl

theorem isSome_stringOrSlice (old : List String) (j : Json) :
    (stringOrSlice old j).isSome = j.isTexts := by
  cases j with
  | arr js =>
    simp only [stringOrSlice, Option.isSome_map, Json.isTexts]
    rw [Decoder.isSome_slice_arr Decoder.uniform_string]
    simp only [isSome_string]
  | _ => rfl

theorem isSome_keys (old : List (String × List String)) (j : Json) :
    (Decoder.map stringOrSlice [] old j).isSome = j.isKeys := by
  cases j with
  | obj members => simp only [Decoder.isSome_map_obj, isSome_stringOrSlice, Json.isKeys]
  | _ => rfl

theorem isSome_condition (old : Condition) (j : Json) :
    (Statement.decodeCondition old j).isSome = j.isCondition := by
  cases j with
  | obj members =>
    simp only [Statement.decodeCondition, Decoder.isSome_map_obj, isSome_keys, Json.isCondition]
  | _ => rfl

namespace Statement

theorem uniform_fields : ∀ f ∈ fields, Decoder.Uniform f.2 := by
  have condition : Decoder.Uniform decodeCondition := Decoder.uniform_map _ _
  simp [fields, Decoder.uniform_field, Decoder.uniform_string, Decoder.uniform_raw, condition]

theorem accepts_fields (m : String × Json) :
    Decoder.accepts equalFold fields {} m = Json.statementMember m := by
  unfold Decoder.accepts Decoder.fieldOf Json.statementMember
  by_cases sid : equalFold "Sid" m.1 = true
  · simp [fields, sid, Decoder.field, isSome_string]
  by_cases effect : equalFold "Effect" m.1 = true
  · simp [fields, sid, effect, Decoder.field, isSome_string]
  by_cases principal : equalFold "Principal" m.1 = true
  · simp [fields, sid, effect, principal, Decoder.field, Decoder.raw]
  by_cases action : equalFold "Action" m.1 = true
  · simp [fields, sid, effect, principal, action, Decoder.field, Decoder.raw]
  by_cases resource : equalFold "Resource" m.1 = true
  · simp [fields, sid, effect, principal, action, resource, Decoder.field,
      Decoder.raw]
  by_cases condition : equalFold "Condition" m.1 = true <;>
    simp [fields, sid, effect, principal, action, resource, condition,
      Decoder.field, isSome_condition]

theorem uniform_decode : Decoder.Uniform decode := Decoder.uniform_struct uniform_fields

theorem isSome_decode (old : Statement) (j : Json) : (decode old j).isSome = j.isStatement := by
  cases j with
  | obj members =>
    unfold decode
    rw [Decoder.isSome_struct_obj uniform_fields {}, funext accepts_fields, Json.isStatement]
  | _ => rfl

end Statement

namespace PolicyDoc

theorem uniform_fields : ∀ f ∈ fields, Decoder.Uniform f.2 := by
  simp [fields, Decoder.uniform_field, Decoder.uniform_string, Decoder.uniform_slice,
    Statement.uniform_decode]

variable {m : String × Json}

theorem accepts_head (head : equalFold "Statement" m.1 = false) :
    Decoder.accepts equalFold fields {} m = Json.headMember m := by
  unfold Decoder.accepts Decoder.fieldOf Json.headMember
  by_cases version : equalFold "Version" m.1 = true
  · simp [fields, version, Decoder.field, isSome_string]
  by_cases id : equalFold "Id" m.1 = true <;>
    simp [fields, version, id, head, Decoder.field, isSome_string]

/-- The members beside the statements do not touch them. -/
theorem head_keeps (head : equalFold "Statement" m.1 = false) {d : Decoder PolicyDoc}
    (found : Decoder.fieldOf equalFold fields m.1 = some d) (doc doc' : PolicyDoc)
    (done : d doc m.2 = some doc') : doc'.statement = doc.statement := by
  unfold Decoder.fieldOf at found
  by_cases version : equalFold "Version" m.1 = true
  · simp only [fields, List.find?_cons, version, Option.map_some, Option.some.injEq] at found
    subst found
    obtain ⟨v, -, rfl⟩ := Option.map_eq_some_iff.mp done
    rfl
  by_cases id : equalFold "Id" m.1 = true
  · simp only [fields, List.find?_cons, version, id, Option.map_some, Option.some.injEq] at found
    subst found
    obtain ⟨v, -, rfl⟩ := Option.map_eq_some_iff.mp done
    rfl
  · simp [fields, version, id, head] at found

end PolicyDoc

/-! ### Decisions -/

namespace PolicyLib

variable (lib : PolicyLib) (req : PolicyRequest)

def denies (st : Statement) : Bool :=
  lib.statementMatches st req && toLower (trimSpace st.effect) == "deny"

def allows (st : Statement) : Bool :=
  lib.statementMatches st req && toLower (trimSpace st.effect) == "allow"

variable {lib req}

/-- Deny beats allow, and the order of the statements does not matter. -/
theorem evaluateFrom_eq (allow : Bool) (sts : List Statement) :
    lib.evaluateFrom req allow sts =
      if sts.any (lib.denies req) then .deny
      else if allow || sts.any (lib.allows req) then .allow
      else .none := by
  induction sts generalizing allow with
  | nil => simp [evaluateFrom]
  | cons st sts ih =>
    rw [evaluateFrom, List.any_cons, List.any_cons]
    cases applies : lib.statementMatches st req with
    | false => simp [denies, allows, applies, ih]
    | true =>
      simp only [denies, allows, applies, Bool.true_and, if_true]
      split
      · rename_i deny
        simp [deny]
      · rename_i allowed
        rw [ih true, allowed]
        simp
      · rename_i neither₁ neither₂
        have notDeny : (toLower (trimSpace st.effect) == "deny") = false := by
          simpa using neither₁
        have notAllow : (toLower (trimSpace st.effect) == "allow") = false := by
          simpa using neither₂
        rw [ih allow, notDeny, notAllow]
        simp

/-- A document with one array of statements, under whatever spelling of the name. -/
def policy (before : List (String × Json)) (name : String) (sts : List Json)
    (after : List (String × Json)) : Json :=
  .obj (before ++ (name, .arr sts) :: after)

/-- The name is one of `Statement`, and no other member has such a name. -/
structure OneArray (before : List (String × Json)) (name : String) (after : List (String × Json)) :
    Prop where
  named : equalFold "Statement" name = true
  others : ∀ m ∈ before ++ after, equalFold "Statement" m.1 = false

variable {before after : List (String × Json)} {name : String} {sts : List Json}

theorem OneArray.fieldOf (h : OneArray before name after) :
    Decoder.fieldOf equalFold PolicyDoc.fields name =
      some (Decoder.field PolicyDoc.statement (fun v doc => { doc with statement := v })
        (Decoder.slice Statement.decode {})) := by
  have spelled : "Statement".toList.map foldRune = name.toList.map foldRune := by
    simpa [equalFold] using h.named
  have version : equalFold "Version" name = false := by
    simp only [equalFold, ← spelled]
    decide
  have id : equalFold "Id" name = false := by
    simp only [equalFold, ← spelled]
    decide
  simp [Decoder.fieldOf, PolicyDoc.fields, version, id, h.named]

section Head

variable {members : List (String × Json)}

theorem OneArray.isSome_head (h : OneArray before name after) (sub : members ⊆ before ++ after)
    (doc : PolicyDoc) :
    (PolicyDoc.decode doc (.obj members)).isSome = members.all Json.headMember := by
  unfold PolicyDoc.decode
  rw [Decoder.isSome_struct_obj PolicyDoc.uniform_fields {}, Bool.eq_iff_iff, List.all_eq_true,
    List.all_eq_true]
  refine forall₂_congr fun m mem => ?_
  rw [PolicyDoc.accepts_head (h.others m (sub mem))]

theorem OneArray.head_keeps (h : OneArray before name after) (sub : members ⊆ before ++ after)
    {doc doc' : PolicyDoc} (done : PolicyDoc.decode doc (.obj members) = some doc') :
    doc'.statement = doc.statement := by
  refine Decoder.struct_get (fun m mem d found doc doc' done => ?_) done
  exact PolicyDoc.head_keeps (h.others m (sub mem)) found doc doc' done

end Head

theorem OneArray.decode_array (h : OneArray before name after) (sts : List Json) (doc : PolicyDoc) :
    PolicyDoc.decode doc (.obj [(name, .arr sts)]) =
      (Decoder.slice Statement.decode {} doc.statement (.arr sts)).map
        fun v => { doc with statement := v } := by
  unfold PolicyDoc.decode
  rw [Decoder.struct_obj, List.foldlM_cons, h.fieldOf]
  cases held : Decoder.slice Statement.decode {} doc.statement (.arr sts) <;>
    simp [Decoder.field, held]

theorem decode_parts (before after : List (String × Json)) (name : String) (sts : List Json) :
    PolicyDoc.decode {} (policy before name sts after) =
      ((PolicyDoc.decode {} (.obj before)).bind fun doc =>
        (PolicyDoc.decode doc (.obj [(name, .arr sts)])).bind fun doc =>
          PolicyDoc.decode doc (.obj after)) := by
  unfold PolicyDoc.decode policy
  rw [Decoder.struct_append, ← List.singleton_append]
  simp only [Decoder.struct_append]

/-- A document decodes if its members have their shapes, to its statements. -/
theorem decode_policy (h : OneArray before name after) (sts : List Json) :
    (PolicyDoc.decode {} (policy before name sts after)).map (·.statement.toList) =
      if (before ++ after).all Json.headMember then sts.mapM (Statement.decode {}) else none := by
  have first := h.isSome_head (List.subset_append_left before after)
  have last := h.isSome_head (List.subset_append_right before after)
  rw [decode_parts, ← Decoder.slice_fresh, List.all_append, ← first {}, ← last {}]
  cases leading : PolicyDoc.decode {} (.obj before) with
  | none => rfl
  | some doc =>
    have untouched := h.head_keeps (List.subset_append_left before after) leading
    rw [Option.bind_some, h.decode_array, untouched]
    cases elems : Decoder.slice Statement.decode {} {} (.arr sts) with
    | none => simp
    | some v =>
      rw [Option.map_some, Option.bind_some]
      have ends := last { doc with statement := v }
      cases trailing : PolicyDoc.decode { doc with statement := v } (.obj after) with
      | none =>
        rw [trailing, ← last {}] at ends
        simp [← ends]
      | some doc' =>
        rw [trailing, ← last {}] at ends
        simp [← ends, h.head_keeps (List.subset_append_right before after) trailing]

/-- The statement a JSON value stands for denies the request. -/
def deniesJson (lib : PolicyLib) (req : PolicyRequest) (j : Json) : Bool :=
  (Statement.decode {} j).any (lib.denies req)

def allowsJson (lib : PolicyLib) (req : PolicyRequest) (j : Json) : Bool :=
  (Statement.decode {} j).any (lib.allows req)

theorem any_of_mapM {f : Statement → Bool} {ss : List Statement}
    (done : sts.mapM (Statement.decode {}) = some ss) :
    ss.any f = sts.any fun j => (Statement.decode {} j).any f := by
  induction sts generalizing ss with
  | nil =>
    cases done
    rfl
  | cons j sts ih =>
    rw [List.mapM_cons] at done
    obtain ⟨st, first, done⟩ := Option.bind_eq_some_iff.mp done
    obtain ⟨rest, others, done⟩ := Option.bind_eq_some_iff.mp done
    cases done
    simp [first, ih others]

theorem isSome_mapM (sts : List Json) :
    (sts.mapM (Statement.decode {})).isSome = sts.all Json.isStatement := by
  induction sts with
  | nil => rfl
  | cons j sts ih =>
    rw [List.mapM_cons, List.all_cons, ← ih, ← Statement.isSome_decode {}]
    cases Statement.decode {} j <;> cases sts.mapM (Statement.decode {}) <;> rfl

/-- The decision on a document, from its statements. -/
theorem evaluateJson_policy (lib : PolicyLib) (req : PolicyRequest) (sts : List Json)
    (h : OneArray before name after) :
    lib.evaluateJson (policy before name sts after) req =
      if (before ++ after).all Json.headMember && sts.all Json.isStatement then
        if sts.any (lib.deniesJson req) then .deny
        else if sts.any (lib.allowsJson req) then .allow
        else .none
      else .none := by
  have decoded := decode_policy h sts
  have whole := isSome_mapM sts
  unfold evaluateJson
  cases head : (before ++ after).all Json.headMember with
  | false =>
    rw [head, if_neg Bool.false_ne_true, Option.map_eq_none_iff] at decoded
    simp [decoded]
  | true =>
    rw [head, if_pos rfl] at decoded
    cases each : sts.mapM (Statement.decode {}) with
    | none =>
      rw [each, Option.map_eq_none_iff] at decoded
      rw [each] at whole
      simp [decoded, ← whole]
    | some ss =>
      rw [each] at decoded whole
      obtain ⟨doc, found, rfl⟩ := Option.map_eq_some_iff.mp decoded
      simp only [found, evaluateFrom_eq, any_of_mapM each]
      simp [← whole, deniesJson, allowsJson]

end PolicyLib

end D9Store
