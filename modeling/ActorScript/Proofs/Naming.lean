/-
  Which scripts are accepted.

  A list of tokens is a script if it can be derived from the grammar and its names fit
  (`WellNamed`): no two constants or variables share a name, no two states do, and every state
  handles known events, each of them once.  Names are found without reading the script: they are
  the identifiers right behind certain keywords (`namesAfter`).  Within literals, expressions and
  blocks there are no such keywords, so nothing else is found (`skips_part`).

  The parser checks names while it reads.  What it has read so far is a script, and what is left
  fits it (`Fits`) if the names there are pairwise different and not in the script yet.  A
  declaration takes one name from what is left and gives it to the script.
-/
import ActorScript.Proofs.Predictive

namespace ActorScript

/-! ## Names -/

namespace Grammar

open Phrase

/-- The kind is one of the keywords. -/
def IsOneOf (ks : List Keyword) (k : TokenKind) : Prop := ∃ kw ∈ ks, k = .keyword kw

instance (ks : List Keyword) (k : TokenKind) : Decidable (IsOneOf ks k) :=
  inferInstanceAs (Decidable (∃ kw ∈ ks, k = .keyword kw))

/-- The identifier with which the tokens start, if they start with one. -/
def firstName? : List Token → Option String
  | ⟨.ident name, _⟩ :: _ => some name
  | _ => none

/-- The identifiers that stand right behind one of the keywords. -/
def namesAfter (ks : List Keyword) : List Token → List String
  | [] => []
  | t :: ts =>
    if IsOneOf ks t.kind then (firstName? ts).toList ++ namesAfter ks ts else namesAfter ks ts

/-- The names of constants and variables. -/
abbrev valueNames : List Token → List String := namesAfter [.constWord, .varWord]

/-- The names of states. -/
abbrev stateNames : List Token → List String := namesAfter [.stateWord]

/-- The names of the events that are handled before the next state begins. -/
def eventNames (ts : List Token) : List String :=
  namesAfter [.eventWord] (ts.takeWhile (·.kind ≠ .keyword .stateWord))

/-- Every state handles known events, each of them once. -/
def EventsFit : List Token → Prop
  | [] => True
  | t :: ts =>
    (t.kind = .keyword .stateWord →
      (eventNames ts).Nodup ∧ ∀ name ∈ eventNames ts, (Event.ofName? name).isSome) ∧ EventsFit ts

/-- The names in the tokens of a script fit. -/
structure WellNamed (ts : List Token) : Prop where
  values : (valueNames ts).Nodup
  states : (stateNames ts).Nodup
  events : EventsFit ts

/-- The keywords that show where names are. -/
def declaring : List Keyword := [.constWord, .varWord, .stateWord, .eventWord]

/-- The kind is none of the keywords, and not the end of the file. -/
def Inert (ks : List Keyword) (k : TokenKind) : Prop := k ≠ .endOfFile ∧ ¬ IsOneOf ks k

variable {ks ks' : List Keyword} {k : Keyword} {ts rest : List Token} {l l' : Location}
  {name : String}

/-- What means nothing for more keywords means nothing for fewer. -/
theorem Inert.mono {k : TokenKind} (hks : ks ⊆ ks') (h : Inert ks' k) : Inert ks k :=
  ⟨h.1, fun ⟨kw, hkw, hk⟩ => h.2 ⟨kw, hks hkw, hk⟩⟩

/-- Only the keywords themselves mean something. -/
@[simp] theorem inert_keyword {k : Keyword} : Inert ks (.keyword k) ↔ k ∉ ks := by
  simp [Inert, IsOneOf]

@[simp] theorem inert_mark {m : Mark} : Inert ks (.mark m) := by simp [Inert, IsOneOf]

@[simp] theorem inert_ident {name : String} : Inert ks (.ident name) := by simp [Inert, IsOneOf]

@[simp] theorem inert_string {s : String} : Inert ks (.string s) := by simp [Inert, IsOneOf]

@[simp] theorem inert_int {n : Int64} : Inert ks (.int n) := by simp [Inert, IsOneOf]

/-- An identifier behind such a keyword is a name. -/
theorem namesAfter_keyword (hk : k ∈ ks) :
    namesAfter ks (⟨.keyword k, l⟩ :: ⟨.ident name, l'⟩ :: ts) = name :: namesAfter ks ts := by
  have hident : ¬ IsOneOf ks (.ident name) := by simp [IsOneOf]
  rw [namesAfter, if_pos ⟨k, hk, rfl⟩, namesAfter, if_neg hident]
  rfl

/-- **Inert tokens** give no names, so they can be left out. -/
theorem namesAfter_skips (hks : ks ⊆ ks') (h : Skips (Inert ks') ts rest) :
    namesAfter ks ts = namesAfter ks rest := by
  obtain ⟨taken, rfl, htaken⟩ := h
  induction taken with
  | nil => rfl
  | cons t taken ih =>
    rw [List.cons_append, namesAfter, if_neg ((htaken t (.head _)).mono hks).2]
    exact ih fun t ht => htaken t (.tail _ ht)

/-- An inert token is none of the keywords. -/
theorem Inert.ne_keyword {k : TokenKind} {kw : Keyword} (h : Inert ks k) (hkw : kw ∈ ks) :
    k ≠ .keyword kw :=
  fun hk => h.2 ⟨kw, hkw, hk⟩

/-- Inert tokens handle no events. -/
theorem eventNames_skips (hks : [.stateWord, .eventWord] ⊆ ks) (h : Skips (Inert ks) ts rest) :
    eventNames ts = eventNames rest := by
  obtain ⟨taken, rfl, htaken⟩ := h
  have hstate : ∀ t ∈ taken, decide (t.kind ≠ .keyword .stateWord) = true :=
    fun t ht => decide_eq_true ((htaken t ht).ne_keyword (hks (by simp)))
  rw [eventNames, List.takeWhile_append_of_pos hstate]
  exact namesAfter_skips (fun k hk => hks (by simp_all)) ⟨taken, rfl, htaken⟩

/-- Inert tokens leave the events of all states as they are. -/
theorem eventsFit_skips (hks : .stateWord ∈ ks) (h : Skips (Inert ks) ts rest) :
    EventsFit ts ↔ EventsFit rest := by
  obtain ⟨taken, rfl, htaken⟩ := h
  induction taken with
  | nil => rfl
  | cons t taken ih =>
    have hstate : t.kind ≠ .keyword .stateWord := (htaken t (.head _)).ne_keyword hks
    rw [List.cons_append, EventsFit, ih fun t ht => htaken t (.tail _ ht)]
    simp [hstate]

/-- Nothing in a literal, an expression or a block has a say in which names there are. -/
theorem madeOf_inert (hks : ks ⊆ declaring) (p : Part) (hp : p ≠ .program) :
    (rule p).MadeOf (Inert ks) (· ≠ .program) := by
  apply Phrase.MadeOf.mono fun k hk => Inert.mono hks hk
  cases p with
  | program => exact absurd rfl hp
  | expression level =>
    cases level <;> simp [rule, separated, register, declaring]
  | _ => simp [rule, simpleStatement, separated, register, declaring]

/-- What is made of inert tokens and of parts other than a whole script is skipped. -/
theorem skips_of_holds {x : Phrase} (hks : ks ⊆ declaring)
    (hx : x.MadeOf (Inert ks) (· ≠ .program)) (h : x.Holds derived ts rest) :
    Skips (Inert ks) ts rest :=
  (derives_of_holds h).skips (madeOf_inert hks) hx

/-- A phrase without declarations is made of inert tokens. -/
theorem skips_declaring {x : Phrase} (hx : x.MadeOf (Inert declaring) (· ≠ .program))
    (h : x.Holds derived ts rest) : Skips (Inert declaring) ts rest :=
  skips_of_holds (fun _ h => h) hx h

/-- No name is there twice, and none is taken already. -/
def Fresh (taken names : List String) : Prop := names.Nodup ∧ ∀ name ∈ names, name ∉ taken

/-- Names are fresh one by one, and each is taken for those behind it. -/
theorem fresh_cons {taken names : List String} :
    Fresh taken (name :: names) ↔ name ∉ taken ∧ Fresh (name :: taken) names := by
  simp only [Fresh, List.nodup_cons, List.forall_mem_cons]
  simp only [List.mem_cons, not_or]
  constructor
  · rintro ⟨⟨hname, hnodup⟩, htaken, hnames⟩
    exact ⟨htaken, hnodup, fun n hn => ⟨fun he => hname (he ▸ hn), hnames n hn⟩⟩
  · rintro ⟨htaken, hnodup, hnames⟩
    exact ⟨⟨fun hn => (hnames name hn).1 rfl, hnodup⟩, htaken, fun n hn => (hnames n hn).2⟩

/-- It matters which names are taken, not in which order. -/
theorem fresh_congr {taken taken' names : List String} (h : ∀ name, name ∈ taken ↔ name ∈ taken') :
    Fresh taken names ↔ Fresh taken' names := by
  simp only [Fresh, h]

/-- The names of events are known, no event is there twice, and none has a handler already. -/
def Handles (found : EventMap BlockId) (names : List String) : Prop :=
  names.Nodup ∧ ∀ name ∈ names, ∃ e, Event.ofName? name = some e ∧ found.contains e = false

/-- **One handler more**: its event has none yet, and the others are for other events. -/
theorem handles_cons {found : EventMap BlockId} {names : List String} {e : Event} {b : BlockId}
    (he : Event.ofName? name = some e) :
    Handles found (name :: names) ↔
      found.contains e = false ∧ Handles (found.insert e b) names := by
  have hcontains : ∀ e', (found.insert e b).contains e' = false ↔
      e' ≠ e ∧ found.contains e' = false := by
    intro e'
    by_cases h : e' = e <;> simp [EventMap.contains, EventMap.get?_insert, h]
  have hother : ∀ {n e'}, Event.ofName? n = some e' → (e' ≠ e ↔ n ≠ name) := by
    intro n e' hn
    rw [← Event.name_of_ofName? hn, ← Event.name_of_ofName? he]
    constructor
    · rintro h hname
      rw [← Event.name_of_ofName? hn] at hn
      have : Event.ofName? e.name = some e' := hname ▸ hn
      rw [Event.ofName?_name] at this
      exact h (Option.some.inj this).symm
    · rintro h rfl
      exact h rfl
  simp only [Handles, List.nodup_cons, List.forall_mem_cons, he, Option.some.injEq,
    exists_eq_left']
  constructor
  · rintro ⟨⟨hname, hnodup⟩, hfound, hnames⟩
    refine ⟨hfound, hnodup, fun n hn => ?_⟩
    obtain ⟨e', he', hfound'⟩ := hnames n hn
    refine ⟨e', he', (hcontains e').mpr ⟨(hother he').mpr ?_, hfound'⟩⟩
    rintro rfl
    exact hname hn
  · rintro ⟨hfound, hnodup, hnames⟩
    refine ⟨⟨fun hn => ?_, hnodup⟩, hfound, fun n hn => ?_⟩
    · obtain ⟨e', he', hfound'⟩ := hnames name hn
      exact (hother he').mp ((hcontains e').mp hfound').1 rfl
    · obtain ⟨e', he', hfound'⟩ := hnames n hn
      exact ⟨e', he', ((hcontains e').mp hfound').2⟩

/-- A state can be given handlers for names that are events and differ from each other. -/
theorem handles_empty {names : List String} :
    Handles .empty names ↔
      names.Nodup ∧ ∀ name ∈ names, (Event.ofName? name).isSome := by
  simp [Handles, EventMap.contains, Option.isSome_iff_exists]

end Grammar

open Grammar Phrase

/-- The names that the script has given to constants and variables. -/
def Script.takenNames (script : Script) : List String :=
  script.constants.map (·.name) ++ script.vars.map (·.name)

/-- The names that the script has given to states. -/
def Script.takenStates (script : Script) : List String := script.states.map (·.name)

/-- The names in the tokens that are left fit those in the script so far. -/
structure Script.Fits (script : Script) (ts : List Token) : Prop where
  values : Fresh script.takenNames (valueNames ts)
  states : Fresh script.takenStates (stateNames ts)
  events : EventsFit ts

/-- A script without declarations takes all that is well named. -/
theorem fits_empty {ts : List Token} : Script.Fits {} ts ↔ WellNamed ts := by
  constructor
  · rintro ⟨hv, hs, he⟩
    exact ⟨hv.1, hs.1, he⟩
  · rintro ⟨hv, hs, he⟩
    exact ⟨⟨hv, by simp [Script.takenNames]⟩, ⟨hs, by simp [Script.takenStates]⟩, he⟩

namespace Parser

variable {finish l l' : Location} {ts rest mid : List Token} {script script' : Script}
  {name : String}

/-- A name of a constant or a variable is checked against both of them. -/
theorem checkUnique_eq_ok :
    checkUnique script name l = .ok () ↔ name ∉ script.takenNames := by
  have hc : (script.constant? name).isSome = true ↔ name ∈ script.constants.map (·.name) := by
    simp [Script.constant?]
  have hv : (script.declared? name).isSome = true ↔ name ∈ script.vars.map (·.name) := by
    simp [Script.declared?]
  rw [checkUnique, Script.takenNames, List.mem_append, not_or, ← hc, ← hv]
  split
  · simp [*]
  · split <;> simp [*]

/-- A state is found by its name. -/
theorem isSome_state? : (script.state? name).isSome = true ↔ name ∈ script.takenStates := by
  simp [Script.state?, Script.takenStates]

/-! ## Constants and variables -/

/-- Inert tokens in front make no difference. -/
theorem fits_skips (h : Skips (Inert declaring) ts rest) : script.Fits ts ↔ script.Fits rest := by
  have hv : valueNames ts = valueNames rest := namesAfter_skips (by decide) h
  have hs : stateNames ts = stateNames rest := namesAfter_skips (by decide) h
  have he := eventsFit_skips (by decide) h
  constructor
  · rintro ⟨hvalues, hstates, hevents⟩
    exact ⟨hv ▸ hvalues, hs ▸ hstates, he.mp hevents⟩
  · rintro ⟨hvalues, hstates, hevents⟩
    exact ⟨hv.symm ▸ hvalues, hs.symm ▸ hstates, he.mpr hevents⟩

/-- A declaration of a value takes its name from what is left. -/
theorem fits_value {k : Keyword} (hk : k = .constWord ∨ k = .varWord)
    (h : Skips (Inert declaring) ts rest)
    (hvalues : ∀ n, n ∈ script'.takenNames ↔ n = name ∨ n ∈ script.takenNames)
    (hstates : script'.takenStates = script.takenStates) :
    script.Fits (⟨.keyword k, l⟩ :: ⟨.ident name, l'⟩ :: ts) ↔
      name ∉ script.takenNames ∧ script'.Fits rest := by
  have hmem : k ∈ [Keyword.constWord, .varWord] := by rcases hk with rfl | rfl <;> simp
  have hne : k ≠ .stateWord := by rcases hk with rfl | rfl <;> decide
  have hstate : stateNames (⟨.keyword k, l⟩ :: ⟨.ident name, l'⟩ :: ts) = stateNames ts := by
    simp [stateNames, namesAfter, IsOneOf, hne]
  have hevents : EventsFit (⟨.keyword k, l⟩ :: ⟨.ident name, l'⟩ :: ts) ↔ EventsFit ts := by
    simp [EventsFit, hne]
  have hfresh : ∀ names, Fresh (name :: script.takenNames) names ↔ Fresh script'.takenNames names :=
    fun names => fresh_congr fun n => by rw [hvalues, List.mem_cons]
  rw [← fits_skips h]
  constructor
  · rintro ⟨hv, hs, he⟩
    rw [valueNames, namesAfter_keyword hmem, fresh_cons, hfresh] at hv
    exact ⟨hv.1, hv.2, by rwa [hstates, ← hstate], hevents.mp he⟩
  · rintro ⟨hname, hv, hs, he⟩
    refine ⟨?_, by rwa [hstate, ← hstates], hevents.mpr he⟩
    rw [valueNames, namesAfter_keyword hmem, fresh_cons, hfresh]
    exact ⟨hname, hv⟩

/-- A constant takes its name. -/
theorem mem_takenNames_constant {n : String} (c : Constant) :
    n ∈ { script with constants := script.constants ++ [c] }.takenNames ↔
      n = c.name ∨ n ∈ script.takenNames := by
  simp only [Script.takenNames, List.map_append, List.mem_append, List.map_cons, List.map_nil,
    List.mem_singleton]
  grind

/-- A variable takes its name. -/
theorem mem_takenNames_variable {n : String} (v : Variable) :
    n ∈ { script with vars := script.vars ++ [v] }.takenNames ↔
      n = v.name ∨ n ∈ script.takenNames := by
  simp only [Script.takenNames, List.map_append, List.mem_append, List.map_cons, List.map_nil,
    List.mem_singleton]
  grind

/-- **A constant that is accepted** is one of the grammar, with a name that was free; what fits
    behind it fitted in front. -/
theorem of_constant {r : Shorter ts} (h : constant finish script ts = .ok (script', r)) :
    Phrase.constant.Holds derived ts r.1 ∧ (script'.Fits r.1 → script.Fits ts) := by
  rw [constant] at h
  obtain ⟨r₁, h₁, h⟩ := bind_eq_ok h
  obtain ⟨⟨name, r₂⟩, h₂, h⟩ := bind_eq_ok h
  obtain ⟨⟨⟩, hname, h⟩ := bind_eq_ok h
  obtain ⟨r₃, h₃, h⟩ := bind_eq_ok h
  obtain ⟨⟨value, r₄⟩, h₄, h⟩ := bind_eq_ok h
  obtain ⟨r₅, h₅, h⟩ := bind_eq_ok h
  cases h
  obtain ⟨l₁, e₁⟩ := of_expect h₁
  obtain ⟨l₂, e₂⟩ := of_expectIdent h₂
  have hrest : (mark .assign ++ (part .literal ++ mark .semicolon)).Holds derived r₂.1 r₅.1 :=
    ⟨_, holds_mark.mpr (of_expect h₃), _, derives_literal h₄, holds_mark.mpr (of_expect h₅)⟩
  refine ⟨⟨_, holds_keyword.mpr ⟨_, e₁⟩, _, holds_ident.mpr ⟨_, _, e₂⟩, hrest⟩, fun hfits => ?_⟩
  rw [e₁, e₂]
  exact (fits_value (.inl rfl) (skips_declaring (by simp [declaring]) hrest)
    (fun _ => mem_takenNames_constant _) rfl).mpr ⟨checkUnique_eq_ok.mp hname, hfits⟩

/-- **A constant of the grammar** with a free name is accepted. -/
theorem takes_constant (h : Phrase.constant.Holds derived ts rest) (hfits : script.Fits ts) :
    ∃ script', Takes (declaration finish script ts) script' rest ∧ script'.Fits rest := by
  obtain ⟨_, hk, _, hi, hrest⟩ := h
  obtain ⟨l₁, rfl⟩ := holds_keyword.mp hk
  obtain ⟨name, l₂, rfl⟩ := holds_ident.mp hi
  have hskips := skips_declaring (by simp [declaring]) hrest
  obtain ⟨_, ha, _, hv, hs⟩ := hrest
  obtain ⟨l₃, rfl⟩ := holds_mark.mp ha
  obtain ⟨l₄, rfl⟩ := holds_mark.mp hs
  obtain ⟨v, hlt, hv⟩ := reads_of_derives finish hv
  obtain ⟨hname, hfits⟩ := (fits_value (.inl rfl) hskips
    (fun _ => mem_takenNames_constant ⟨name, v, l₁⟩) rfl).mp hfits
  refine ⟨_, ?_, hfits⟩
  apply Exists.intro
  rw [declaration, peek_cons]
  simp only
  rw [constant]
  simp only [expect_cons, ok_bind, Shorter.tail, expectIdent_cons, here,
    checkUnique_eq_ok.mpr hname]
  rw [hv]
  rfl

/-- The `saved` in front of a variable may be there or not. -/
theorem of_savedMark :
    (Phrase.optional (keyword .savedWord)).Holds derived ts (savedMark ts).2.1 := by
  rw [savedMark]
  split
  · exact .inl rfl
  · next r hr => exact .inr (holds_keyword.mpr (of_accept? hr))

/-- The default of a variable may be there or not. -/
theorem of_initialValue {v : Option Value} {r : NoLonger ts}
    (h : initialValue finish ts = .ok (v, r)) :
    (Phrase.optional (mark .assign ++ part .literal)).Holds derived ts r.1 := by
  rw [initialValue] at h
  split at h
  · cases h
    exact .inl rfl
  · next r₁ h₁ =>
    obtain ⟨⟨value, r₂⟩, h₂, h⟩ := bind_eq_ok h
    cases h
    exact .inr ⟨_, holds_mark.mpr (of_accept? h₁), derives_literal h₂⟩

/-- **A variable that is accepted**, as for constants. -/
theorem of_variableDeclaration {r : Shorter ts}
    (h : variableDeclaration finish script ts = .ok (script', r)) :
    Phrase.variableDeclaration.Holds derived ts r.1 ∧ (script'.Fits r.1 → script.Fits ts) := by
  rw [variableDeclaration] at h
  obtain ⟨r₂, h₂, h⟩ := bind_eq_ok h
  obtain ⟨⟨name, r₃⟩, h₃, h⟩ := bind_eq_ok h
  obtain ⟨⟨⟩, hname, h⟩ := bind_eq_ok h
  obtain ⟨⟨initial, r₄⟩, h₄, h⟩ := bind_eq_ok h
  obtain ⟨r₅, h₅, h⟩ := bind_eq_ok h
  cases h
  obtain ⟨l₂, e₂⟩ : ∃ l, (savedMark ts).2.1 = ⟨.keyword .varWord, l⟩ :: r₂.1 := of_expect h₂
  obtain ⟨l₃, e₃⟩ := of_expectIdent h₃
  have hsaved : (Phrase.optional (keyword .savedWord)).Holds derived ts (savedMark ts).2.1 :=
    of_savedMark
  have hrest : (Phrase.optional (mark .assign ++ part .literal) ++ mark .semicolon).Holds derived
      r₃.1 r₅.1 := ⟨_, of_initialValue h₄, holds_mark.mpr (of_expect h₅)⟩
  refine ⟨⟨_, hsaved, _, holds_keyword.mpr ⟨_, e₂⟩, _, holds_ident.mpr ⟨_, _, e₃⟩, hrest⟩,
    fun hfits => ?_⟩
  rw [fits_skips (skips_declaring (by simp [declaring]) hsaved), e₂, e₃]
  exact (fits_value (.inr rfl) (skips_declaring (by simp [declaring]) hrest)
    (fun _ => mem_takenNames_variable _) rfl).mpr ⟨checkUnique_eq_ok.mp hname, hfits⟩

/-- A default is read up to the semicolon behind it. -/
theorem initialValue_of_holds (finish : Location) {l : Location}
    (h : (Phrase.optional (mark .assign ++ part .literal)).Holds derived ts
      (⟨.mark .semicolon, l⟩ :: rest)) :
    ∃ v, Continues (initialValue finish ts) v (⟨.mark .semicolon, l⟩ :: rest) := by
  rcases h with rfl | ⟨_, ha, hv⟩
  · exact ⟨none, _, by rw [initialValue, accept?_of_ne (by simp)]; rfl⟩
  · obtain ⟨l', rfl⟩ := holds_mark.mp ha
    obtain ⟨v, hlt, hv⟩ := reads_of_derives finish hv
    refine ⟨some v, ?_⟩
    apply Exists.intro
    rw [initialValue]
    simp only [accept?_cons, Shorter.tail]
    rw [hv]
    rfl

/-- **A variable of the grammar** with a free name is accepted. -/
theorem takes_variableDeclaration (h : Phrase.variableDeclaration.Holds derived ts rest)
    (hfits : script.Fits ts) :
    ∃ script', Takes (declaration finish script ts) script' rest ∧ script'.Fits rest := by
  obtain ⟨_, hsaved, _, hk, _, hi, hrest⟩ := h
  rw [fits_skips (skips_declaring (by simp [declaring]) hsaved)] at hfits
  obtain ⟨l₁, rfl⟩ := holds_keyword.mp hk
  obtain ⟨name, l₂, rfl⟩ := holds_ident.mp hi
  have hskips := skips_declaring (by simp [declaring]) hrest
  obtain ⟨_, hv, hs⟩ := hrest
  obtain ⟨l₃, rfl⟩ := holds_mark.mp hs
  obtain ⟨v, hlt, hv⟩ := initialValue_of_holds finish hv
  rcases hsaved with rfl | hsaved
  · obtain ⟨hname, hfits⟩ := (fits_value (.inr rfl) hskips
      (fun _ => mem_takenNames_variable ⟨name, false, v, l₁⟩) rfl).mp hfits
    refine ⟨_, ?_, hfits⟩
    apply Exists.intro
    rw [declaration, peek_cons]
    simp only
    rw [variableDeclaration, savedMark, accept?_of_ne (by simp)]
    simp only [NoLonger.all, expect_cons, ok_bind, Shorter.tail, expectIdent_cons, here,
      checkUnique_eq_ok.mpr hname]
    rw [hv]
    rfl
  · obtain ⟨l₀, rfl⟩ := holds_keyword.mp hsaved
    obtain ⟨hname, hfits⟩ := (fits_value (.inr rfl) hskips
      (fun _ => mem_takenNames_variable ⟨name, true, v, l₀⟩) rfl).mp hfits
    refine ⟨_, ?_, hfits⟩
    apply Exists.intro
    rw [declaration, peek_cons]
    simp only
    rw [variableDeclaration, savedMark, accept?_cons]
    simp only [Shorter.noLonger, expect_cons, ok_bind, Shorter.tail, expectIdent_cons, here,
      checkUnique_eq_ok.mpr hname]
    rw [hv]
    rfl

/-! ## States -/

/-- A handler adds its name to those of its state. -/
theorem eventNames_event (h : Skips (Inert declaring) ts rest) :
    eventNames (⟨.keyword .eventWord, l⟩ :: ⟨.ident name, l'⟩ :: ts) = name :: eventNames rest := by
  rw [← eventNames_skips (by decide) h]
  simp [eventNames, namesAfter_keyword]

/-- **Handlers that are accepted** are handlers of the grammar up to the closing brace.  If no event
    is handled between that brace and the next state, the events of the state exist and differ. -/
theorem of_handlers (finish start : Location) (name : String) (base : Nat)
    (found : EventMap BlockId) (ts : List Token) {all : EventMap BlockId} {chunk : Chunk}
    {r : Shorter ts} (h : handlers finish start name base found ts = .ok (all, chunk, r)) :
    ∃ mid l, Relation.ReflTransGen (handler.Holds derived) ts mid ∧
      mid = ⟨.mark .rightBrace, l⟩ :: r.1 ∧
      (eventNames r.1 = [] → Handles found (eventNames ts)) := by
  rw [handlers] at h
  split at h
  · next r₁ h₁ =>
    cases h
    obtain ⟨l, e₁⟩ := of_accept? h₁
    refine ⟨ts, l, .refl, e₁, fun hquiet => ?_⟩
    have hbrace : (mark .rightBrace).Holds derived ts r.1 := holds_mark.mpr ⟨l, e₁⟩
    rw [eventNames_skips (by decide) (skips_declaring (by simp [declaring]) hbrace), hquiet]
    exact ⟨List.nodup_nil, by simp⟩
  · split at h
    · cases h
    · obtain ⟨r₁, h₁, h⟩ := bind_eq_ok h
      obtain ⟨⟨eventName, r₂⟩, h₂, h⟩ := bind_eq_ok h
      simp only at h
      split at h
      · next event hevent =>
        split at h
        · cases h
        · next hfound =>
          obtain ⟨r₃, h₃, h⟩ := bind_eq_ok h
          obtain ⟨r₄, h₄, h⟩ := bind_eq_ok h
          obtain ⟨⟨chunk₁, r₅⟩, h₅, h⟩ := bind_eq_ok h
          obtain ⟨⟨all', chunk₂, r₆⟩, h₆, h⟩ := bind_eq_ok h
          cases h
          obtain ⟨l₁, e₁⟩ := of_expect h₁
          obtain ⟨l₂, e₂⟩ := of_expectIdent h₂
          have hrest : (mark .leftParen ++ (mark .rightParen ++ part .block)).Holds derived
              r₂.1 r₅.1 := ⟨_, holds_mark.mpr (of_expect h₃), _, holds_mark.mpr (of_expect h₄),
            derives_block finish base r₄.1 h₅⟩
          obtain ⟨mid, l, hothers, hmid, hnames⟩ := of_handlers finish start name _ _
            (r₁.trans (r₂.trans (r₃.trans (r₄.trans r₅)))).1 h₆
          refine ⟨mid, l, .head ⟨_, holds_keyword.mpr ⟨_, e₁⟩, _, holds_ident.mpr ⟨_, _, e₂⟩, hrest⟩
            hothers, hmid, fun hquiet => ?_⟩
          rw [e₁, e₂, eventNames_event (skips_declaring (by simp [declaring]) hrest),
            handles_cons hevent]
          exact ⟨by simpa using hfound, hnames hquiet⟩
      · cases h
termination_by ts.length
decreasing_by exact Shorter.length_lt _

/-- Handlers of the grammar for different events are accepted, whatever is in their blocks. -/
theorem handlers_of_holds (finish start : Location) (name : String) {l : Location}
    (h : Relation.ReflTransGen (handler.Holds derived) ts (⟨.mark .rightBrace, l⟩ :: rest))
    (base : Nat) (found : EventMap BlockId)
    (hnames : Handles found (eventNames ts)) :
    ∃ all chunk hlt, handlers finish start name base found ts = .ok (all, chunk, ⟨rest, hlt⟩) := by
  generalize hend : (⟨.mark .rightBrace, l⟩ :: rest : List Token) = last at h
  induction h using Relation.ReflTransGen.head_induction_on generalizing base found with
  | refl =>
    subst hend
    exact ⟨found, [], _, by rw [handlers, accept?_cons]; rfl⟩
  | head h _ ih =>
    obtain ⟨_, hk, _, hi, hrest⟩ := h
    obtain ⟨l₁, rfl⟩ := holds_keyword.mp hk
    obtain ⟨eventName, l₂, rfl⟩ := holds_ident.mp hi
    rw [eventNames_event (skips_declaring (by simp [declaring]) hrest)] at hnames
    obtain ⟨_, hp, _, hp', hblock⟩ := hrest
    obtain ⟨l₃, rfl⟩ := holds_mark.mp hp
    obtain ⟨l₄, rfl⟩ := holds_mark.mp hp'
    obtain ⟨-, hblock⟩ := reads_of_derives finish hblock
    obtain ⟨chunk, hlt, hblock⟩ := hblock base
    obtain ⟨event, hevent, -⟩ := hnames.2 eventName (.head _)
    obtain ⟨hfound, hnames⟩ := (handles_cons hevent).mp hnames
    obtain ⟨all, chunk', hlt', hothers⟩ := ih (base + chunk.length) (found.insert event base) hnames
    refine ⟨all, chunk ++ chunk', ?_⟩
    apply Exists.intro
    rw [handlers, accept?_of_ne (by simp), peek_cons]
    simp only [reduceCtorEq, if_false, expect_cons, ok_bind, Shorter.tail, expectIdent_cons,
      hevent, hfound, Bool.false_eq_true]
    rw [hblock]
    simp only [ok_bind, Shorter.trans]
    rw [hothers]
    rfl

/-- A state takes its name, and its blocks take none. -/
theorem mem_takenStates_state {n : String} (st : State) (blocks : List Block) :
    n ∈ { script with states := script.states ++ [st], blocks := blocks }.takenStates ↔
      n = st.name ∨ n ∈ script.takenStates := by
  simp [Script.takenStates, or_comm]

/-- The declaration of a state takes its name from what is left, and the events up to the next
    state. -/
theorem fits_state (hhead : Skips (Inert declaring) ts mid)
    (hbody : Skips (Inert [.constWord, .varWord, .stateWord]) mid rest)
    (hstates : ∀ n, n ∈ script'.takenStates ↔ n = name ∨ n ∈ script.takenStates)
    (hvalues : script'.takenNames = script.takenNames) :
    script.Fits (⟨.keyword .stateWord, l⟩ :: ⟨.ident name, l'⟩ :: ts) ↔
      name ∉ script.takenStates ∧ Handles .empty (eventNames mid) ∧ script'.Fits rest := by
  have hskips : Skips (Inert [.constWord, .varWord, .stateWord]) ts rest :=
    (hhead.mono fun _ hk => hk.mono (by decide)).trans hbody
  have hv : valueNames (⟨.keyword .stateWord, l⟩ :: ⟨.ident name, l'⟩ :: ts) = valueNames rest := by
    rw [valueNames, ← namesAfter_skips (by decide) hskips]
    simp [namesAfter, IsOneOf]
  have hs : stateNames (⟨.keyword .stateWord, l⟩ :: ⟨.ident name, l'⟩ :: ts) =
      name :: stateNames rest := by
    rw [stateNames, namesAfter_keyword (by decide), namesAfter_skips (by decide) hskips]
  have he : EventsFit (⟨.keyword .stateWord, l⟩ :: ⟨.ident name, l'⟩ :: ts) ↔
      Handles .empty (eventNames mid) ∧ EventsFit rest := by
    rw [← eventNames_skips (by decide) hhead, ← eventsFit_skips (by decide) hskips,
      handles_empty]
    simp [EventsFit, eventNames, namesAfter, IsOneOf]
  have hfresh :
      ∀ names, Fresh (name :: script.takenStates) names ↔ Fresh script'.takenStates names :=
    fun names => fresh_congr fun n => by rw [hstates, List.mem_cons]
  constructor
  · rintro ⟨hvalues', hstates', hevents⟩
    rw [hs, fresh_cons, hfresh] at hstates'
    rw [hv, ← hvalues] at hvalues'
    exact ⟨hstates'.1, (he.mp hevents).1, hvalues', hstates'.2, (he.mp hevents).2⟩
  · rintro ⟨hname, hhandles, hvalues', hstates', hevents⟩
    refine ⟨?_, ?_, he.mpr ⟨hhandles, hevents⟩⟩
    · rwa [hv, ← hvalues]
    · rw [hs, fresh_cons, hfresh]
      exact ⟨hname, hstates'⟩

/-- The handlers of a state and the brace that closes it. -/
theorem skips_handlers
    (h : (many handler ++ mark .rightBrace).Holds derived ts rest) :
    Skips (Inert [.constWord, .varWord, .stateWord]) ts rest :=
  skips_of_holds (by decide) (by simp [handler]) h

/-- **A state that is accepted** has a free name, and events that fit. -/
theorem of_stateDeclaration {r : Shorter ts}
    (h : stateDeclaration finish script ts = .ok (script', r)) :
    Phrase.stateDeclaration.Holds derived ts r.1 ∧
      (eventNames r.1 = [] → script'.Fits r.1 → script.Fits ts) := by
  rw [stateDeclaration] at h
  obtain ⟨r₁, h₁, h⟩ := bind_eq_ok h
  obtain ⟨⟨name, r₂⟩, h₂, h⟩ := bind_eq_ok h
  simp only at h
  split at h
  · cases h
  · next hname =>
    obtain ⟨r₃, h₃, h⟩ := bind_eq_ok h
    obtain ⟨⟨condition, r₄⟩, h₄, h⟩ := bind_eq_ok h
    obtain ⟨r₅, h₅, h⟩ := bind_eq_ok h
    obtain ⟨r₆, h₆, h⟩ := bind_eq_ok h
    obtain ⟨⟨found, chunk, r₇⟩, h₇, h⟩ := bind_eq_ok h
    cases h
    obtain ⟨l₁, e₁⟩ := of_expect h₁
    obtain ⟨l₂, e₂⟩ := of_expectIdent h₂
    have hparen := holds_mark (R := derived).mpr (of_expect h₃)
    have hcondition := derives_expression finish _ _ h₄
    have hparen' := holds_mark (R := derived).mpr (of_expect h₅)
    have hbrace := holds_mark (R := derived).mpr (of_expect h₆)
    obtain ⟨mid, l, hhandlers, hmid, hnames⟩ := of_handlers _ _ _ _ _ _ h₇
    have hbody : (many handler ++ mark .rightBrace).Holds derived r₆.1 r₇.1 :=
      ⟨mid, hhandlers, holds_mark.mpr ⟨l, hmid⟩⟩
    have hhead : (mark .leftParen ++ (Phrase.expression .ternary ++ (mark .rightParen ++
        mark .leftBrace))).Holds derived r₂.1 r₆.1 := ⟨_, hparen, _, hcondition, _, hparen', hbrace⟩
    refine ⟨⟨_, holds_keyword.mpr ⟨_, e₁⟩, _, holds_ident.mpr ⟨_, _, e₂⟩, _, hparen, _, hcondition,
      _, hparen', _, hbrace, hbody⟩, fun hquiet hfits => ?_⟩
    rw [e₁, e₂]
    exact (fits_state (skips_declaring (by simp [declaring]) hhead)
      (skips_handlers hbody) (fun _ => mem_takenStates_state _ _) rfl).mpr
        ⟨fun hn => hname (isSome_state?.mpr hn), hnames hquiet, hfits⟩

/-- A state of the grammar with a free name and events that fit is accepted. -/
theorem takes_stateDeclaration (h : Phrase.stateDeclaration.Holds derived ts rest)
    (hfits : script.Fits ts) :
    ∃ script', Takes (declaration finish script ts) script' rest ∧ script'.Fits rest := by
  obtain ⟨_, hk, inner, hi, _, hp, _, hc, _, hp', hs, hb, hbody⟩ := h
  obtain ⟨l₁, rfl⟩ := holds_keyword.mp hk
  obtain ⟨name, l₂, rfl⟩ := holds_ident.mp hi
  have hhead : (mark .leftParen ++ (Phrase.expression .ternary ++ (mark .rightParen ++
      mark .leftBrace))).Holds derived inner hs := ⟨_, hp, _, hc, _, hp', hb⟩
  obtain ⟨l₃, rfl⟩ := holds_mark.mp hp
  obtain ⟨l₄, rfl⟩ := holds_mark.mp hp'
  obtain ⟨l₅, rfl⟩ := holds_mark.mp hb
  obtain ⟨c, hlt, hc⟩ := (reads_of_derives finish hc).2 stops_rightParen
  have hskips := skips_handlers hbody
  obtain ⟨_, hhandlers, hb'⟩ := hbody
  obtain ⟨l₆, rfl⟩ := holds_mark.mp hb'
  have hstep : ∀ found chunk, name ∉ script.takenStates ∧ Handles .empty (eventNames hs) ∧
      Script.Fits { script with
        states := script.states ++ [⟨name, c, found, l₁⟩]
        blocks := script.blocks ++ chunk } rest := fun found chunk =>
    (fits_state (skips_declaring (by simp [declaring]) hhead) hskips
      (fun _ => mem_takenStates_state ⟨name, c, found, l₁⟩ _) rfl).mp hfits
  obtain ⟨found, chunk, hlt', hhandlers⟩ := handlers_of_holds finish l₅ name hhandlers
    script.blocks.length .empty (hstep .empty []).2.1
  have hname : (script.state? name).isSome ≠ true :=
    fun h => (hstep .empty []).1 (isSome_state?.mp h)
  refine ⟨_, ?_, (hstep found chunk).2.2⟩
  apply Exists.intro
  rw [declaration, peek_cons]
  simp only
  rw [stateDeclaration]
  simp only [expect_cons, ok_bind, Shorter.tail, expectIdent_cons, here, if_neg hname]
  rw [hc]
  simp only [expect_cons, ok_bind, Shorter.tail]
  rw [hhandlers]
  rfl

/-! ## Scripts -/

/-- The end of the file, at location `l`, is the last token, and only the last. -/
def Ended (l : Location) (ts : List Token) : Prop :=
  ∃ body, ts = body ++ [⟨.endOfFile, l⟩] ∧ ∀ t ∈ body, t.kind ≠ .endOfFile

/-- What is taken is not the end of the file. -/
theorem Ended.skips {ks : List Keyword} (hts : Ended l ts) (h : Skips (Inert ks) ts rest) :
    Ended l rest := by
  obtain ⟨body, hbody, hne⟩ := hts
  obtain ⟨taken, rfl, htaken⟩ := h
  rcases List.append_eq_append_iff.mp hbody with ⟨behind, rfl, hrest⟩ | ⟨left, rfl, hlast⟩
  · exact ⟨behind, hrest, fun t ht => hne t (List.mem_append_right _ ht)⟩
  · cases left with
    | nil => exact ⟨[], hlast.symm, by simp⟩
    | cons t left =>
      obtain ⟨rfl, -⟩ := List.cons_eq_cons.mp hlast
      exact absurd rfl (htaken ⟨.endOfFile, l⟩ (by simp)).1

/-- The end of the file is the last token. -/
theorem Ended.eq_of_peek (hts : Ended l ts) (h : peek ts = .endOfFile) :
    ts = [⟨.endOfFile, l⟩] := by
  obtain ⟨body, rfl, hne⟩ := hts
  cases body with
  | nil => rfl
  | cons t body => exact absurd h (hne t (.head _))

/-- A declaration takes no end of the file. -/
theorem skips_declaration (h : Phrase.declaration.Holds derived ts rest) :
    Skips (Inert []) ts rest :=
  skips_of_holds (by simp) (by simp [Phrase.declaration, Phrase.constant,
    Phrase.variableDeclaration, Phrase.stateDeclaration, handler]) h

/-- No event is handled before the first state. -/
theorem eventNames_of_declarations
    (h : Relation.ReflTransGen (Phrase.declaration.Holds derived) ts [⟨.endOfFile, l⟩]) :
    eventNames ts = [] := by
  induction h using Relation.ReflTransGen.head_induction_on with
  | refl => simp [eventNames, namesAfter, IsOneOf]
  | head h _ ih =>
    rcases h with (h | h) | ⟨_, hk, -⟩
    · rw [← ih]
      exact eventNames_skips (fun _ h => h) (skips_of_holds (by decide)
        (by simp [Phrase.constant]) h)
    · rw [← ih]
      exact eventNames_skips (fun _ h => h) (skips_of_holds (by decide)
        (by simp [Phrase.variableDeclaration]) h)
    · obtain ⟨l', rfl⟩ := holds_keyword.mp hk
      simp [eventNames, namesAfter]

/-- One of the three kinds of declaration. -/
theorem of_declaration {r : Shorter ts} (h : declaration finish script ts = .ok (script', r)) :
    Phrase.declaration.Holds derived ts r.1 ∧
      (eventNames r.1 = [] → script'.Fits r.1 → script.Fits ts) := by
  rw [declaration] at h
  split at h
  · exact ⟨.inl (.inl (of_constant h).1), fun _ => (of_constant h).2⟩
  · exact ⟨.inl (.inr (of_variableDeclaration h).1), fun _ => (of_variableDeclaration h).2⟩
  · exact ⟨.inl (.inr (of_variableDeclaration h).1), fun _ => (of_variableDeclaration h).2⟩
  · exact ⟨.inr (of_stateDeclaration h).1, (of_stateDeclaration h).2⟩
  · cases h

/-- The first keyword tells which of the three it is. -/
theorem takes_declaration (finish : Location) (h : Phrase.declaration.Holds derived ts rest)
    (hfits : script.Fits ts) :
    ∃ script', Takes (declaration finish script ts) script' rest ∧ script'.Fits rest := by
  rcases h with (h | h) | h
  · exact takes_constant h hfits
  · exact takes_variableDeclaration h hfits
  · exact takes_stateDeclaration h hfits

/-- What is accepted is made of declarations, and its names fit. -/
theorem of_declarations (finish : Location) (script : Script) (ts : List Token) {script' : Script}
    (hts : Ended l ts) (h : declarations finish script ts = .ok script') :
    Relation.ReflTransGen (Phrase.declaration.Holds derived) ts [⟨.endOfFile, l⟩] ∧
      script.Fits ts := by
  rw [declarations] at h
  split at h
  · next hpeek =>
    obtain rfl := hts.eq_of_peek hpeek
    refine ⟨.refl, ⟨?_, ?_, ?_⟩⟩ <;>
      simp [Fresh, namesAfter, IsOneOf, EventsFit]
  · obtain ⟨⟨script₁, r₁⟩, h₁, h⟩ := bind_eq_ok h
    obtain ⟨hfirst, hfits⟩ := of_declaration h₁
    obtain ⟨hothers, hfits'⟩ :=
      of_declarations finish script₁ r₁.1 (hts.skips (skips_declaration hfirst)) h
    exact ⟨.head hfirst hothers, hfits (eventNames_of_declarations hothers) hfits'⟩
termination_by ts.length
decreasing_by exact Shorter.length_lt _

/-- Declarations whose names fit are accepted. -/
theorem declarations_of_holds (finish : Location)
    (h : Relation.ReflTransGen (Phrase.declaration.Holds derived) ts [⟨.endOfFile, l⟩])
    (script : Script) (hfits : script.Fits ts) :
    ∃ script', declarations finish script ts = .ok script' := by
  induction h using Relation.ReflTransGen.head_induction_on generalizing script with
  | refl => exact ⟨script, by rw [declarations]; rfl⟩
  | head h _ ih =>
    obtain ⟨script₁, ⟨hlt, htakes⟩, hfits'⟩ := takes_declaration finish h hfits
    obtain ⟨script', h'⟩ := ih script₁ hfits'
    refine ⟨script', ?_⟩
    rw [declarations, if_neg, htakes]
    · exact h'
    · intro hpeek
      rw [declaration, hpeek] at htakes
      cases htakes

/-- **The parser accepts exactly the scripts**: the tokens that can be derived from the grammar and
    whose names fit. -/
theorem script_accepts_iff {body : List Token} (hbody : ∀ t ∈ body, t.kind ≠ .endOfFile)
    (l : Location) :
    (∃ s, Parser.script (body ++ [⟨.endOfFile, l⟩]) = .ok s) ↔
      Derives (.part .program) (body ++ [⟨.endOfFile, l⟩]) [] ∧
        WellNamed (body ++ [⟨.endOfFile, l⟩]) := by
  constructor
  · rintro ⟨s, h⟩
    obtain ⟨hderives, hfits⟩ := of_declarations _ _ _ ⟨body, rfl, hbody⟩ h
    exact ⟨derives_of_rule ⟨_, hderives, holds_endOfFile.mpr ⟨l, rfl⟩⟩, fits_empty.mp hfits⟩
  · rintro ⟨h, hnames⟩
    obtain ⟨_, hderives, hend⟩ := h.of_part
    obtain ⟨l', rfl⟩ := holds_endOfFile.mp hend
    exact declarations_of_holds _ hderives _ (fits_empty.mpr hnames)

/-- The tokens of `const A = 1;`. -/
def constantA : List Token :=
  [⟨.keyword .constWord, ⟨1, 1⟩⟩, ⟨.ident "A", ⟨1, 7⟩⟩, ⟨.mark .assign, ⟨1, 9⟩⟩, ⟨.int 1, ⟨1, 11⟩⟩,
   ⟨.mark .semicolon, ⟨1, 12⟩⟩]

theorem script_accepts_constantA :
    (∀ t ∈ constantA, t.kind ≠ .endOfFile) ∧
      Derives (.part .program) (constantA ++ [⟨.endOfFile, ⟨1, 13⟩⟩]) [] ∧
      WellNamed (constantA ++ [⟨.endOfFile, ⟨1, 13⟩⟩]) :=
  ⟨by decide, (script_accepts_iff (by decide) ⟨1, 13⟩).mp ⟨_, by cbv⟩⟩

/-- A script that declares a constant twice is derived from the grammar, and refused. -/
theorem script_refuses_second_constantA :
    Derives (.part .program) (constantA ++ (constantA ++ [⟨.endOfFile, ⟨1, 13⟩⟩])) [] ∧
      ∀ s, Parser.script (constantA ++ (constantA ++ [⟨.endOfFile, ⟨1, 13⟩⟩])) ≠ .ok s := by
  have hvalue : ∀ ts, Derives (.part .literal) (⟨.int 1, ⟨1, 11⟩⟩ :: ts) ts := fun ts =>
    derives_of_rule (by simp [rule])
  have hconstant : ∀ rest, Phrase.constant.Holds derived (constantA ++ rest) rest := fun rest =>
    ⟨_, holds_keyword.mpr ⟨_, rfl⟩, _, holds_ident.mpr ⟨_, _, rfl⟩, _, holds_mark.mpr ⟨_, rfl⟩, _,
      hvalue _, holds_mark.mpr ⟨_, rfl⟩⟩
  refine ⟨derives_of_rule ⟨_, .head (.inl (.inl (hconstant _)))
    (.single (.inl (.inl (hconstant _)))), holds_endOfFile.mpr ⟨_, rfl⟩⟩, fun s h => ?_⟩
  have hfits := (of_declarations _ _ _ ⟨constantA ++ constantA, rfl, by decide⟩ h).2
  exact absurd hfits.values.1 (by decide)

end Parser

end ActorScript
