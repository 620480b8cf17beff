/-
  Scripts and their JSON form.

  A script is read back from the document it is written as, and from every variant of it
  (`Script.ofJson?_variant`).

  For everything a script consists of this is one statement (`Restores`), which follows from what
  a variant of a record answers (`Variant.answers`).  Expressions are read from parts of the
  document, to any depth, so for them it is an induction (`Expr.restores`).  The handlers of a state
  are no record but a table, where every name is that of an event: nothing can be added to it, and
  the order does not matter because each event is there once (`restores_handlers`).
-/
import ActorScript.Proofs.Saving
import ActorScript.Proofs.Variants

namespace ActorScript

open Json

/-- `read` gives back what `write` has written, from every variant of the document. -/
def Restores {α : Type} (write : α → Json) (read : Json → Option α) : Prop :=
  ∀ x j, Variant (write x) j → read j = some x

variable {nested : Bool} {j : Json}

namespace Location

theorem restores : Restores toJson ofJson? := by
  intro l j h
  obtain ⟨ns, rfl, ha⟩ := h.answers (by simp)
  obtain ⟨line, hline, hv⟩ := ha.required "line" rfl (by decide)
  obtain ⟨column, hcolumn, hw⟩ := ha.required "column" rfl (by decide)
  obtain rfl := hv.int_inv
  obtain rfl := hw.int_inv
  simp [ofJson?, fields?, hline, hcolumn, required?, nat?]

end Location

namespace Value

/-- The content of a value may stand in front of its kind, where it is read as if it were nested. -/
theorem ofJson?_object (nested : Bool) {ns : List (String × Json)} {kind : String}
    {content : Option Json} (hkind : single? "kind" ns = some (some (.string kind)))
    (hcontent : single? "value" ns = some content) :
    ofJson? nested (.object ns) =
      ofContent? (nested || contentFirst (.object ns)) kind content := by
  simp [ofJson?, fields?, hkind, hcontent, items?, choice?]

/-- A value that is not absent is read from a variant of its content. -/
theorem exists_content {kind : String} {i : Json}
    (h : Variant (.object [("kind", .string kind), ("value", i)]) j) (nested : Bool) :
    ∃ content nested', Variant i content ∧
      ofJson? nested j = ofContent? nested' kind (some content) := by
  obtain ⟨ns, rfl, ha⟩ := h.answers (by simp)
  obtain ⟨k, hkind, hv⟩ := ha.required "kind" rfl (by decide)
  obtain ⟨content, hcontent, hw⟩ := ha.required "value" rfl (by decide)
  obtain rfl := hv.string_inv
  exact ⟨content, _, hw, ofJson?_object nested hkind hcontent⟩

theorem restores (nested : Bool) : Restores toJson (ofJson? nested) := by
  intro v j h
  cases v with
  | absent =>
    obtain ⟨ns, rfl, ha⟩ := h.answers (by simp)
    obtain ⟨kind, hkind, hv⟩ := ha.required "kind" rfl (by decide)
    obtain rfl := hv.string_inv
    have hnone := ha.lacks "value" (.inr (.inr ⟨rfl, rfl⟩)) (by simp)
    rw [ofJson?_object nested hkind hnone, ofContent?]
  | int n =>
    obtain ⟨content, nested', hv, hread⟩ := exists_content h nested
    obtain rfl := hv.int_inv
    rw [hread, ofContent?, int64OfJson?_toInt, Option.map_some]
  | bool b =>
    obtain ⟨content, nested', hv, hread⟩ := exists_content h nested
    obtain rfl := hv.bool_inv
    rw [hread, ofContent?, Json.bool?, Option.map_some]
  | string s =>
    obtain ⟨content, nested', hv, hread⟩ := exists_content h nested
    obtain rfl := hv.string_inv
    rw [hread, ofContent?, Json.string?, Option.map_some]
  | orientation o =>
    obtain ⟨content, nested', hv, hread⟩ := exists_content h nested
    obtain rfl := hv.string_inv
    rw [hread, ofContent?, choice?, Option.bind_eq_bind, Option.bind_some,
      Orientation.ofName?_name]
    rfl

end Value

namespace Register

theorem restores : Restores toJson ofJson? := by
  intro r j h
  obtain ⟨ns, rfl, ha⟩ := h.answers (by simp)
  obtain ⟨space, hspace, hv⟩ := ha.required "space" rfl (by decide)
  obtain ⟨key, hkey, hw⟩ := ha.required "key" rfl (by decide)
  obtain rfl := hv.string_inv
  obtain rfl := hw.string_inv
  simp [ofJson?, fields?, hspace, hkey, required?, choice?, string?]

end Register

namespace Reference

theorem restores : Restores toJson ofJson? := by
  intro r j h
  cases r with
  | register reg =>
    obtain ⟨ns, rfl, ha⟩ := h.answers (by simp)
    obtain ⟨r, hr, hv⟩ := ha.required "register" rfl (by decide)
    simp [ofJson?, ha.tagged? rfl, fields?, single?_untagged, hr, required?,
      Register.restores _ _ hv]
  | symbol name =>
    obtain ⟨ns, rfl, ha⟩ := h.answers (by simp)
    obtain ⟨n, hn, hv⟩ := ha.required "name" rfl (by decide)
    obtain rfl := hv.string_inv
    simp [ofJson?, ha.tagged? rfl, fields?, single?_untagged, hn, required?, string?]

end Reference

namespace Expr

/-- The arguments of a call are written one by one. -/
theorem toJsonList_eq (es : List Expr) : toJsonList es = es.map toJson := by
  induction es with
  | nil => rfl
  | cons e es ih => rw [toJsonList, ih, List.map_cons]

theorem restores (nested : Bool) : Restores toJson (ofJson? nested) := by
  intro e
  induction e using Expr.induct generalizing nested with
  | literal v =>
    intro j h
    obtain ⟨parts, hparts, hall⟩ := h.exists_parts nested kinds fieldNames rfl (by decide)
      (by decide)
    obtain _ | ⟨hv, ⟨⟩⟩ := hall
    rw [ofJson?, hparts]
    simp [Value.restores true _ _ hv]
  | symbol n =>
    intro j h
    obtain ⟨parts, hparts, hall⟩ := h.exists_parts nested kinds fieldNames rfl (by decide)
      (by decide)
    obtain _ | ⟨hv, ⟨⟩⟩ := hall
    rw [ofJson?, hparts]
    simp [hv.string_inv, string?]
  | register r =>
    intro j h
    obtain ⟨parts, hparts, hall⟩ := h.exists_parts nested kinds fieldNames rfl (by decide)
      (by decide)
    obtain _ | ⟨hv, ⟨⟩⟩ := hall
    rw [ofJson?, hparts]
    simp [Register.restores _ _ hv]
  | call f args ih =>
    intro j h
    obtain ⟨parts, hparts, hall⟩ := h.exists_parts nested kinds fieldNames rfl (by decide)
      (by decide)
    obtain _ | ⟨hv, _ | ⟨hw, ⟨⟩⟩⟩ := hall
    -- every argument is read from a variant of its own
    rw [toJsonList_eq] at hw
    obtain ⟨items, hitems, hvariants⟩ := hw.array_inv
    obtain ⟨ps, hps, rfl⟩ := Part.exists_items hitems
    have hargs : ps.unattach.mapM (ofJson? true) = some args :=
      mapM_of_variants hvariants fun a ha => ih a ha true
    rw [ofJson?, hparts]
    simp [hv.string_inv, string?, hps, hargs]
  | unary op e ih =>
    intro j h
    obtain ⟨parts, hparts, hall⟩ := h.exists_parts nested kinds fieldNames rfl (by decide)
      (by decide)
    obtain _ | ⟨hv, _ | ⟨hw, ⟨⟩⟩⟩ := hall
    have hop : unaryOp? (.string op.word) = some op := by
      cases op <;> rfl
    rw [ofJson?, hparts]
    simp [hv.string_inv, hop, ih true _ hw]
  | binary op l r ihl ihr =>
    intro j h
    obtain ⟨parts, hparts, hall⟩ := h.exists_parts nested kinds fieldNames rfl (by decide)
      (by decide)
    obtain _ | ⟨hv, _ | ⟨hw, _ | ⟨hu, ⟨⟩⟩⟩⟩ := hall
    have hop : binaryOp? (.string op.word) = some op := by
      cases op <;> rfl
    rw [ofJson?, hparts]
    simp [hv.string_inv, hop, ihl true _ hw, ihr true _ hu]
  | ternary c t e ihc iht ihe =>
    intro j h
    obtain ⟨parts, hparts, hall⟩ := h.exists_parts nested kinds fieldNames rfl (by decide)
      (by decide)
    obtain _ | ⟨hv, _ | ⟨hw, _ | ⟨hu, ⟨⟩⟩⟩⟩ := hall
    rw [ofJson?, hparts]
    simp [ihc true _ hv, iht true _ hw, ihe true _ hu]

end Expr

namespace Json

/-- **A member that may be left out** is read from whatever is answered to its name. -/
theorem Answers.exists_optional {α : Type} {write : α → Json} {read : Json → Option α}
    {ms ns : List (String × Json)} {o : Option α} (ha : Answers ms ns) (name : String)
    (hmem : ms.lookup name = some (o.elim .null write)) (hread : Restores write read)
    (hnull : ∀ x, write x ≠ .null) :
    ∃ field, single? name ns = some field ∧ optional? field read = some o := by
  cases o with
  | none =>
    rcases ha.optional name hmem with ⟨j, hj, hv⟩ | ⟨-, -, hnone⟩
    · obtain rfl := hv.null_inv
      exact ⟨some .null, hj, rfl⟩
    · exact ⟨none, hnone, rfl⟩
  | some x =>
    rcases ha.optional name hmem with ⟨j, hj, hv⟩ | ⟨-, hx, -⟩
    · refine ⟨some j, hj, ?_⟩
      have hne : j ≠ .null := by
        rintro rfl
        exact hnull x hv.eq_null
      rw [optional?]
      · rw [hread x j hv, Option.map_some]
      · simpa using hne
    · exact absurd hx (hnull x)

end Json

/-- The number of a block is an integer that is not negative. -/
theorem restores_nat : Restores (fun n : Nat => .int n) nat? := by
  intro n j h
  rw [h.int_inv]
  rfl

namespace Statement

theorem restores : Restores toJson ofJson? := by
  intro st j h
  cases st with
  | call f args l =>
    obtain ⟨ns, rfl, ha⟩ := h.answers (by simp)
    obtain ⟨x, hx, hname⟩ := ha.required "name" rfl (by decide)
    obtain ⟨y, hy, hargs⟩ := ha.required "args" rfl (by decide)
    obtain ⟨z, hz, hl⟩ := ha.required "location" rfl (by decide)
    rw [Expr.toJsonList_eq] at hargs
    have hread := listOf?_of_variant hargs fun e _ => Expr.restores true e
    simp [ofJson?, ha.tagged? rfl, fields?, single?_untagged, hx, hy, hz, required?, string?,
      hname.string_inv, hread, Location.restores _ _ hl]
  | assign target value l =>
    obtain ⟨ns, rfl, ha⟩ := h.answers (by simp)
    obtain ⟨x, hx, htarget⟩ := ha.required "target" rfl (by decide)
    obtain ⟨y, hy, hvalue⟩ := ha.required "value" rfl (by decide)
    obtain ⟨z, hz, hl⟩ := ha.required "location" rfl (by decide)
    simp [ofJson?, ha.tagged? rfl, fields?, single?_untagged, hx, hy, hz, required?,
      Reference.restores _ _ htarget, Expr.restores true _ _ hvalue, Location.restores _ _ hl]
  | ifElse c t e l =>
    obtain ⟨ns, rfl, ha⟩ := h.answers (by simp)
    obtain ⟨x, hx, hc⟩ := ha.required "condition" rfl (by decide)
    obtain ⟨y, hy, ht⟩ := ha.required "then_block" rfl (by decide)
    obtain ⟨w, hw, he⟩ := ha.exists_optional "else_block" rfl restores_nat (by simp)
    obtain ⟨z, hz, hl⟩ := ha.required "location" rfl (by decide)
    simp [ofJson?, ha.tagged? rfl, fields?, single?_untagged, hx, hy, hw, hz, required?,
      Expr.restores true _ _ hc, restores_nat _ _ ht, he, Location.restores _ _ hl]

end Statement

namespace EventMap

/-- The order in which the entries of a table are entered does not matter. -/
theorem foldl_insert_eq {α : Type} {m n : EventMap α} {es : List (Event × α)}
    (hes : ∀ p ∈ es, n.get? p.1 = some p.2)
    (hm : ∀ e, e ∉ es.map (·.1) → m.get? e = n.get? e) :
    es.foldl (fun m p => m.insert p.1 p.2) m = n := by
  induction es generalizing m with
  | nil => exact ext_get? fun e => hm e List.not_mem_nil
  | cons p es ih =>
    refine ih (fun q hq => hes q (List.mem_cons_of_mem p hq)) fun e hnot => ?_
    rw [get?_insert]
    split
    · next h => rw [h, hes p List.mem_cons_self]
    · next h =>
      refine hm e ?_
      rw [List.map_cons, List.mem_cons]
      exact not_or.mpr ⟨h, hnot⟩

end EventMap

namespace Script

/-- The member for the handler of an event. -/
def handlerToJson (p : Event × BlockId) : String × Json := (p.1.name, .int p.2)

/-- The members for handlers, read one by one. -/
theorem mapM_handlerToJson (es : List (Event × BlockId)) :
    (es.map handlerToJson).mapM (fun (name, b) => do return (← Event.ofName? name, ← b.nat?)) =
      some es := by
  induction es with
  | nil => rfl
  | cons p es ih =>
    rw [List.map_cons, List.mapM_cons, ih, handlerToJson]
    simp [nat?]

/-- **The handlers of a state** are read in whatever order they stand. -/
theorem restores_handlers : Restores
    (fun m : EventMap BlockId => .object (m.toList.map handlerToJson)) handlersOfJson? := by
  intro m j h
  obtain ⟨ns, kept, rfl, hs, -, hperm⟩ := h.object_inv
  -- every member names an event, so all of them are kept and there are no others
  have hkept : kept = m.toList.map handlerToJson := by
    refine hs.eq_of_fixed fun x hx => ?_
    obtain ⟨⟨e, b⟩, -, rfl⟩ := List.mem_map.mp hx
    have hname : e.name ∉ optionalNames := by
      cases e <;> decide
    exact ⟨hname, fun j hv => hv.int_inv⟩
  have hns : ns.Perm (m.toList.map handlerToJson) := by
    rw [← hkept]
    refine hperm fun x hx => ?_
    obtain ⟨p, -, rfl⟩ := List.mem_map.mp hx
    rw [handlerToJson, Event.ofName?_name]
    rfl
  have hcomp := congrFun (congrFun (List.eq_map_comp_perm handlerToJson) ns) m.toList
  obtain ⟨es, rfl, hes⟩ := hcomp.mpr hns
  rw [handlersOfJson?, members?, Option.bind_eq_bind, Option.bind_some, mapM_handlerToJson]
  refine congrArg some (EventMap.foldl_insert_eq (fun p hp => ?_) fun e he => ?_)
  · exact EventMap.mem_toList.mp (hes.mem_iff.mp hp)
  · rw [EventMap.get?_empty, eq_comm, Option.eq_none_iff_forall_ne_some]
    intro b hb
    exact he (List.mem_map.mpr ⟨(e, b), hes.mem_iff.mpr (EventMap.mem_toList.mpr hb), rfl⟩)

/-- A constant is restored from its name, its value and its location. -/
theorem restores_constant : Restores constantToJson constantOfJson? := by
  intro c j h
  obtain ⟨ns, rfl, ha⟩ := h.answers (by simp)
  obtain ⟨x, hx, hname⟩ := ha.required "name" rfl (by decide)
  obtain ⟨y, hy, hvalue⟩ := ha.required "value" rfl (by decide)
  obtain ⟨z, hz, hl⟩ := ha.required "location" rfl (by decide)
  simp [constantOfJson?, fields?, hx, hy, hz, required?, string?, hname.string_inv,
    Value.restores false _ _ hvalue, Location.restores _ _ hl]

/-- A variable may lack its default, and the member is then `null` or missing. -/
theorem restores_variable : Restores variableToJson variableOfJson? := by
  intro v j h
  obtain ⟨ns, rfl, ha⟩ := h.answers (by simp)
  obtain ⟨x, hx, hname⟩ := ha.required "name" rfl (by decide)
  obtain ⟨y, hy, hpersisted⟩ := ha.required "persisted" rfl (by decide)
  have hnull : ∀ v : Value, v.toJson ≠ .null := by
    intro v
    cases v <;> simp [Value.toJson]
  obtain ⟨w, hw, hinitial⟩ := ha.exists_optional "default" rfl (Value.restores false) hnull
  obtain ⟨z, hz, hl⟩ := ha.required "location" rfl (by decide)
  simp [variableOfJson?, fields?, hx, hy, hw, hz, required?, string?, bool?, hname.string_inv,
    hpersisted.bool_inv, hinitial, Location.restores _ _ hl]

/-- A state is restored with its handlers, of which each event has its own member. -/
theorem restores_state : Restores stateToJson stateOfJson? := by
  intro st j h
  obtain ⟨ns, rfl, ha⟩ := h.answers (by simp)
  obtain ⟨x, hx, hname⟩ := ha.required "name" rfl (by decide)
  obtain ⟨y, hy, hcondition⟩ := ha.required "condition" rfl (by decide)
  obtain ⟨w, hw, hevents⟩ := ha.required "events" rfl (by decide)
  obtain ⟨z, hz, hl⟩ := ha.required "location" rfl (by decide)
  simp [stateOfJson?, fields?, hx, hy, hw, hz, required?, string?, hname.string_inv,
    Expr.restores false _ _ hcondition, restores_handlers _ _ hevents, Location.restores _ _ hl]

/-- A block is an array of statements. -/
theorem restores_block : Restores blockToJson blockOfJson? := by
  intro b j h
  obtain ⟨ns, rfl, ha⟩ := h.answers (by simp)
  obtain ⟨x, hx, hv⟩ := ha.required "statements" rfl (by decide)
  simp [blockOfJson?, fields?, hx, required?,
    listOf?_of_variant hv fun st _ => Statement.restores st]

theorem restores : Restores toJson ofJson? := by
  intro s j h
  obtain ⟨ns, rfl, ha⟩ := h.answers (by simp)
  obtain ⟨x, hx, hconstants⟩ := ha.required "constants" rfl (by decide)
  obtain ⟨y, hy, hvars⟩ := ha.required "variables" rfl (by decide)
  obtain ⟨w, hw, hstates⟩ := ha.required "states" rfl (by decide)
  obtain ⟨z, hz, hblocks⟩ := ha.required "blocks" rfl (by decide)
  simp [ofJson?, fields?, hx, hy, hw, hz, required?,
    listOf?_of_variant hconstants fun c _ => restores_constant c,
    listOf?_of_variant hvars fun v _ => restores_variable v,
    listOf?_of_variant hstates fun st _ => restores_state st,
    listOf?_of_variant hblocks fun b _ => restores_block b]

/-- **The JSON form of a script is faithful.**  A script is read back from the document it is
    written as, and from every variant of that document: from members in another order, among
    members with unknown names, and without the null defaults of variables and the null blocks of
    missing `else` branches. -/
theorem ofJson?_variant (s : Script) :
    ofJson? s.toJson = some s ∧ ∀ j, Variant s.toJson j → ofJson? j = some s :=
  ⟨restores s _ (.same _), restores s⟩

/-- A script with a variable that has no default and an `if` without an `else`. -/
def undecided : Script where
  vars := [⟨"x", false, none, ⟨1, 1⟩⟩]
  blocks := [[.ifElse (.symbol "x") 0 none ⟨2, 3⟩]]

/-- The script from back to front, with a note for the variable, and with neither its default nor
    a block for the `else`. -/
def undecidedDocument : Json :=
  .object [
    ("blocks", .array [.object [("statements", .array [.object [
      ("location", .object [("column", .int 3), ("line", .int 2)]), ("then_block", .int 0),
      ("condition", .object [("name", .string "x"), ("kind", .string "symbol")]),
      ("kind", .string "if")]])]]),
    ("states", .array []),
    ("variables", .array [.object [("note", .null),
      ("location", .object [("column", .int 1), ("line", .int 1)]), ("persisted", .bool false),
      ("name", .string "x")]]),
    ("constants", .array [])]

theorem variant_undecided : Variant undecided.toJson undecidedDocument := by
  have hlocation (l : Location) :
      Variant l.toJson (.object [("column", .int l.column), ("line", .int l.line)]) :=
    .reversed (.refl _) [] (List.forall_mem_nil _)
  have hcondition : Variant (Expr.toJson (.symbol "x"))
      (.object [("name", .string "x"), ("kind", .string "symbol")]) :=
    .reversed (.refl _) [] (List.forall_mem_nil _)
  have hvariable : Variant (variableToJson ⟨"x", false, none, ⟨1, 1⟩⟩)
      (.object [("note", .null), ("location", .object [("column", .int 1), ("line", .int 1)]),
        ("persisted", .bool false), ("name", .string "x")]) :=
    .reversed (.keep (.same _) (.keep (.same _) (.leave (by decide)
      (.keep (hlocation ⟨1, 1⟩) .nil)))) [("note", .null)] (by decide)
  have hstatement : Variant (Statement.toJson (.ifElse (.symbol "x") 0 none ⟨2, 3⟩))
      (.object [("location", .object [("column", .int 3), ("line", .int 2)]),
        ("then_block", .int 0),
        ("condition", .object [("name", .string "x"), ("kind", .string "symbol")]),
        ("kind", .string "if")]) :=
    .reversed (.keep (.same _) (.keep hcondition (.keep (.same _) (.leave (by decide)
      (.keep (hlocation ⟨2, 3⟩) .nil))))) [] (List.forall_mem_nil _)
  have hblock : Variant (blockToJson [.ifElse (.symbol "x") 0 none ⟨2, 3⟩]) _ :=
    .reversed (.keep (.array (.cons hstatement .nil)) .nil) [] (List.forall_mem_nil _)
  exact .reversed (.keep (.same _) (.keep (.array (.cons hvariable .nil)) (.keep (.same _)
    (.keep (.array (.cons hblock .nil)) .nil)))) [] (List.forall_mem_nil _)

theorem ofJson?_undecidedDocument :
    Variant undecided.toJson undecidedDocument ∧ ofJson? undecidedDocument = some undecided :=
  ⟨variant_undecided, (ofJson?_variant undecided).2 _ variant_undecided⟩

end Script

end ActorScript
