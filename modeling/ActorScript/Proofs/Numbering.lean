/-
  How the blocks of a script that was read from a text are numbered.

  A block belongs to an event of a state or to a branch of an `if`.  A script holds that as
  references from these owners to the numbers of their blocks (`Script.references`).  In the text
  it is a matter of braces: `Nesting.openings` walks along the tokens, keeps whose the open braces
  are and whose the next one will be, and notes the owner of every block where it begins.  It
  knows nothing of expressions or of the insides of statements.

  The `i`-th block of the text is block `i` of the script: its owner refers to it, and nothing
  else does (`Script.Numbered`).  A piece of a script that is read as blocks from `base` on brings
  the references to exactly these blocks (`Numbers`), and pieces are put together in the order of
  the text (`Numbers.append`, `Numbers.block`).
-/
import Mathlib
import ActorScript.Proofs.Naming

namespace ActorScript

/-! ## The tokens of a text -/

/-- A location as a pair that is compared by line, and within a line by column. -/
def Location.position (l : Location) : ℕ ×ₗ ℕ := toLex (l.line, l.column)

namespace Location

/-- Behind a character the position is further on, also on a new line. -/
theorem position_next (l : Location) (c : Char) : l.position < (l.next c).position := by
  rw [next]
  split <;> simp [position, Prod.Lex.toLex_lt_toLex]

/-- A text never leads back. -/
theorem position_advance_le (l : Location) (cs : List Char) :
    l.position ≤ (l.advance cs).position := by
  induction cs generalizing l with
  | nil => exact le_refl _
  | cons c cs ih => exact (l.position_next c).le.trans (ih _)

/-- A text with a character in it leads on. -/
theorem position_advance (l : Location) {cs : List Char} (hcs : cs ≠ []) :
    l.position < (l.advance cs).position := by
  cases cs with
  | nil => exact absurd rfl hcs
  | cons c cs => exact (l.position_next c).trans_le ((l.next c).position_advance_le cs)

end Location

namespace Token

/-- Blanks and comments never lead back. -/
theorem position_skipGap {g : Gap} {l l' : Location} {cs rest : List Char}
    (h : skipGap g l cs = .ok (l', rest)) : l.position ≤ l'.position := by
  fun_induction skipGap g l cs <;> grind [Location.position_next, le_of_lt, le_trans]

/-- No text is a token that ends the file. -/
theorem kind_of_lexeme {l : Location} {c : Char} {cs taken rest : List Char} {k : TokenKind}
    (h : lexeme l c cs = .ok (k, taken, rest)) : k ≠ .endOfFile := by
  unfold lexeme at h
  grind [wordKind]

/-- The end of the file is the last token and only the last, and every token stands behind those
    in front of it. -/
theorem of_scan (l : Location) (cs : List Char) {ts : List Token} (h : scan l cs = .ok ts) :
    (∃ l', Parser.Ended l' ts) ∧ (∀ t ∈ ts, l.position ≤ t.location.position) ∧
      ts.Pairwise fun t t' => t.location.position < t'.location.position := by
  rw [scan] at h
  split at h
  · cases h
  · next l' hg =>
    cases h
    exact ⟨⟨l', [], rfl, by simp⟩, by simpa using position_skipGap hg, by simp⟩
  · next l' c rest hg =>
    split at h
    · cases h
    · next kind taken rest' hl =>
      cases hs : scan (l'.advance taken) rest' with
      | error e =>
        rw [hs] at h
        cases h
      | ok ts' =>
        rw [hs] at h
        cases h
        have hlt : rest'.length < cs.length :=
          Nat.lt_of_lt_of_le (lexeme_length_lt hl) (skipGap_length_le hg)
        obtain ⟨⟨l'', body, hbody, hne⟩, hle, hsorted⟩ := of_scan (l'.advance taken) rest' hs
        have hgap := position_skipGap hg
        have htaken := l'.position_advance (lexeme_ne_nil hl)
        refine ⟨⟨l'', ⟨kind, l'⟩ :: body, by rw [hbody]; rfl, ?_⟩, ?_, ?_⟩
        · exact List.forall_mem_cons.mpr ⟨kind_of_lexeme hl, hne⟩
        · exact List.forall_mem_cons.mpr
            ⟨hgap, fun t ht => (hgap.trans htaken.le).trans (hle t ht)⟩
        · exact List.pairwise_cons.mpr ⟨fun t ht => htaken.trans_le (hle t ht), hsorted⟩
termination_by cs.length
decreasing_by assumption

/-- No two tokens of a text stand in the same place. -/
theorem nodup_of_tokenize {source : String} {ts : List Token} (h : tokenize source = .ok ts) :
    (ts.map Token.location).Nodup := by
  obtain ⟨-, -, hsorted⟩ := of_scan _ _ h
  exact List.pairwise_map.mpr
    (hsorted.imp fun hlt he => absurd (congrArg Location.position he) hlt.ne)

end Token

/-! ## Owners -/

/-- Who refers to a block: the handler of an event, in the state at a location, or a branch of the
    `if` at a location. -/
inductive Owner
  | handler (state : Location) (event : Event)
  | thenBranch (l : Location)
  | elseBranch (l : Location)
deriving DecidableEq, Repr

/-- The blocks that a statement refers to, with their owners. -/
def Statement.references : Statement → List (Owner × BlockId)
  | .call .. | .assign .. => []
  | .ifElse _ t e l => (.thenBranch l, t) :: (e.map (.elseBranch l, ·)).toList

/-- The blocks of the handlers in a table, for the state at a location. -/
def EventMap.references (l : Location) (m : EventMap BlockId) : List (Owner × BlockId) :=
  m.toList.map fun (e, b) => (.handler l e, b)

/-- The blocks of all handlers of a script, with their owners. -/
def Script.handlerReferences (script : Script) : List (Owner × BlockId) :=
  script.states.flatMap fun st => st.handlers.references st.location

/-- The blocks that the states and statements of a script refer to, with their owners. -/
def Script.references (script : Script) : List (Owner × BlockId) :=
  script.handlerReferences ++ script.blocks.flatMap (·.flatMap Statement.references)

/-- The blocks of a statement are its targets. -/
@[simp] theorem Statement.map_snd_references (st : Statement) :
    st.references.map Prod.snd = st.targets := by
  cases st with
  | call => rfl
  | assign => rfl
  | ifElse c t e l => cases e <;> rfl

/-- No event is listed twice. -/
theorem EventMap.nodup_toList {α : Type} (m : EventMap α) : m.toList.Nodup := by
  refine List.Nodup.filterMap ?_ (by decide)
  rintro e e' ⟨e'', a⟩ h h'
  obtain ⟨-, rfl⟩ : m.get? e = some a ∧ e = e'' := by simpa using h
  obtain ⟨-, rfl⟩ : m.get? e' = some a ∧ e' = e := by simpa using h'
  rfl

/-- **A handler for a new event** is listed once more, somewhere among the others. -/
theorem EventMap.toList_insert {α : Type} {m : EventMap α} {e : Event} (he : m.contains e = false)
    (a : α) : (m.insert e a).toList.Perm ((e, a) :: m.toList) := by
  have hnone : m.get? e = none := by simpa [contains] using he
  refine (List.perm_ext_iff_of_nodup (nodup_toList _) ?_).mpr ?_
  · refine List.nodup_cons.mpr ⟨?_, nodup_toList m⟩
    simp [mem_toList, hnone]
  · rintro ⟨e', b⟩
    rw [mem_toList, List.mem_cons, mem_toList, get?_insert]
    split
    · next h =>
      subst h
      simp [hnone, eq_comm]
    · next h => simp [h]

/-- A handler for a new event adds one reference. -/
theorem EventMap.references_insert {m : EventMap BlockId} {e : Event} (he : m.contains e = false)
    (l : Location) (b : BlockId) :
    ((m.insert e b).references l).Perm ((.handler l e, b) :: m.references l) :=
  (toList_insert he b).map _

/-! ## Openings -/

/-- What a brace is opened for. -/
inductive Brace
  | state (l : Location)
  | block (owner : Owner)
deriving DecidableEq, Repr

/-- The beginning of a block in a text: whose it is, and where its first statement is. -/
structure Opening where
  owner : Owner
  first : Option Location
deriving DecidableEq, Repr

/-- What is known between two tokens: what the next brace will be for, and what the open ones are
    for, the innermost first. -/
structure Nesting where
  next : Brace
  opened : List Brace

/-- Where the statement starts that a block begins with, if it does not end there. -/
def firstStatement? : List Token → Option Location
  | [] => none
  | t :: _ => if t.kind = .mark .rightBrace then none else some t.location

namespace Nesting

open Grammar

/-- Behind the token `t`, with the tokens `ts` to come.  A closing brace takes back what was known
    at its opening brace, so that an `else` behind it belongs to the same `if`. -/
def after (n : Nesting) (t : Token) (ts : List Token) : Nesting :=
  match t.kind, n.next, n.opened with
  | .keyword .stateWord, _, opened => ⟨.state t.location, opened⟩
  | .keyword .eventWord, next, .state l :: opened =>
    ⟨(((firstName? ts).bind Event.ofName?).map fun e => .block (.handler l e)).getD next,
      .state l :: opened⟩
  | .keyword .ifWord, _, opened => ⟨.block (.thenBranch t.location), opened⟩
  | .keyword .elseWord, .block (.thenBranch l), opened => ⟨.block (.elseBranch l), opened⟩
  | .mark .leftBrace, next, opened => ⟨next, next :: opened⟩
  | .mark .rightBrace, _, b :: opened => ⟨b, opened⟩
  | _, next, opened => ⟨next, opened⟩

/-- The block that begins with the token `t`: with a brace, or with the `if` behind an `else`. -/
def opening? (n : Nesting) (t : Token) (ts : List Token) : Option Opening :=
  match t.kind, n.next with
  | .mark .leftBrace, .block owner => some ⟨owner, firstStatement? ts⟩
  | .keyword .elseWord, .block (.thenBranch l) =>
    if Parser.peek ts = .keyword .ifWord then some ⟨.elseBranch l, firstStatement? ts⟩ else none
  | _, _ => none

/-- The blocks that begin in the tokens, in their order. -/
def openings (n : Nesting) : List Token → List Opening
  | [] => []
  | t :: ts => (n.opening? t ts).toList ++ (n.after t ts).openings ts

end Nesting

/-- The blocks of a text, in the order in which they begin. -/
def Token.openings (ts : List Token) : List Opening := Nesting.openings ⟨.state .start, []⟩ ts

/-- The script numbers its blocks as they are opened in the text. -/
structure Script.Numbered (script : Script) (os : List Opening) : Prop where
  /-- To every block there is one reference, and there are no others. -/
  once : (script.references.map Prod.snd).Perm (List.range script.blocks.length)
  /-- The references are those from the owner of the `i`-th opening to block `i`. -/
  inOrder : script.references.Perm (os.map Opening.owner).zipIdx
  /-- A statement refers only to blocks behind the one it is in. -/
  forward : script.Forward
  /-- Block `i` starts with the statement behind the `i`-th opening, and has none if none is
      there. -/
  contents : script.blocks.map (·.head?.map Statement.location) = os.map Opening.first

/-! ## Pieces of a script -/

namespace Parser

open Grammar Phrase

/-- A piece of a script with the blocks `chunk`, of which the first is number `base`, and with
    `references` outside of blocks: the references in it are those from the owners of `os` to these
    blocks, and these blocks start with what stands behind their openings. -/
structure Numbers (base : Nat) (references : List (Owner × BlockId)) (chunk : Chunk)
    (os : List Opening) : Prop where
  inOrder : (references ++ chunk.flatMap (·.flatMap Statement.references)).Perm
    ((os.map Opening.owner).zipIdx base)
  contents : chunk.map (·.head?.map Statement.location) = os.map Opening.first

namespace Numbers

variable {base : Nat} {references references₁ references₂ : List (Owner × BlockId)}
  {chunk chunk₁ chunk₂ : Chunk} {os os₁ os₂ : List Opening}

/-- No blocks at all. -/
theorem nil (base : Nat) : Numbers base [] [] [] := ⟨.refl _, rfl⟩

/-- The order of the references does not matter. -/
theorem perm (h : Numbers base references₁ chunk os) (hperm : references₂.Perm references₁) :
    Numbers base references₂ chunk os :=
  ⟨(hperm.append_right _).trans h.inOrder, h.contents⟩

/-- There are as many blocks as openings. -/
theorem length_eq (h : Numbers base references chunk os) : chunk.length = os.length := by
  simpa using congrArg List.length h.contents

/-- **Two pieces in a row**: the second is numbered from where the first one ends. -/
theorem append (h₁ : Numbers base references₁ chunk₁ os₁)
    (h₂ : Numbers (base + chunk₁.length) references₂ chunk₂ os₂) :
    Numbers base (references₁ ++ references₂) (chunk₁ ++ chunk₂) (os₁ ++ os₂) := by
  refine ⟨?_, by rw [List.map_append, h₁.contents, h₂.contents, List.map_append]⟩
  rw [List.map_append, List.zipIdx_append, List.length_map, ← h₁.length_eq]
  refine .trans ?_ (h₁.inOrder.append h₂.inOrder)
  rw [List.flatMap_append]
  simp only [List.append_assoc]
  refine List.Perm.append_left _ ?_
  rw [← List.append_assoc, ← List.append_assoc]
  exact List.perm_append_comm.append_right _

/-- A block belongs to its owner, and the blocks nested in it follow. -/
theorem block {body : Block} (owner : Owner)
    (h : Numbers (base + 1) (body.flatMap Statement.references) chunk os) :
    Numbers base [(owner, base)] (body :: chunk)
      (⟨owner, body.head?.map Statement.location⟩ :: os) := by
  refine ⟨?_, by rw [List.map_cons, h.contents, List.map_cons]⟩
  rw [List.map_cons, List.zipIdx_cons, List.flatMap_cons]
  exact h.inOrder.cons _

/-- The block of an `else if`. -/
theorem single {st : Statement} (owner : Owner) (h : Numbers (base + 1) st.references chunk os) :
    Numbers base [(owner, base)] ([st] :: chunk) (⟨owner, some st.location⟩ :: os) :=
  block owner (by rwa [List.flatMap_singleton])

end Numbers

/-! ## Tokens between openings -/

/-- The openings on the way from `ts` to `rest` are `os`, and the nesting turns from `n` to `n'`. -/
def Opens (n : Nesting) (ts : List Token) (os : List Opening) (n' : Nesting) (rest : List Token) :
    Prop :=
  n.openings ts = os ++ n'.openings rest

/-- The kind has no say in where blocks begin and whose they are. -/
def Plain (k : TokenKind) : Prop :=
  Inert [.stateWord, .eventWord, .ifWord, .elseWord] k ∧ k ≠ .mark .leftBrace ∧
    k ≠ .mark .rightBrace

/-- The parts with blocks in them. -/
def blockParts : List Part := [.program, .block, .statement, .ifStatement]

variable {n n' n'' : Nesting} {ts mid rest : List Token} {os os' : List Opening} {l : Location}

/-- What one text opens and what the next one opens. -/
theorem Opens.trans (h₁ : Opens n ts os n' mid) (h₂ : Opens n' mid os' n'' rest) :
    Opens n ts (os ++ os') n'' rest := by
  rw [Opens, h₁, h₂, List.append_assoc]

/-- One token opens a block or not, and changes what its brace will belong to. -/
theorem opens_token {t : Token} (hts : ts = t :: rest) :
    Opens n ts (n.opening? t rest).toList (n.after t rest) rest := by
  subst hts
  rfl

/-- **An `else` in front of an `if`** opens the block around that `if` without any brace; it stands
    where the `if` does. -/
theorem opens_elseIf {l l₁ l₂ : Location} {opened : List Brace}
    (hts : ts = ⟨.keyword .elseWord, l₁⟩ :: rest) (hif : peek rest = .keyword .ifWord)
    (hfirst : firstStatement? rest = some l₂) :
    Opens ⟨.block (.thenBranch l), opened⟩ ts [⟨.elseBranch l, some l₂⟩]
      ⟨.block (.elseBranch l), opened⟩ rest := by
  have := opens_token (n := ⟨.block (.thenBranch l), opened⟩) hts
  simp only [Nesting.opening?, if_pos hif, hfirst] at this
  exact this

/-- Any other `else` leaves the block to its brace. -/
theorem opens_else {l l' : Location} {opened : List Brace}
    (hts : ts = ⟨.keyword .elseWord, l'⟩ :: rest) (hif : peek rest ≠ .keyword .ifWord) :
    Opens ⟨.block (.thenBranch l), opened⟩ ts [] ⟨.block (.elseBranch l), opened⟩ rest := by
  have := opens_token (n := ⟨.block (.thenBranch l), opened⟩) hts
  simp only [Nesting.opening?, if_neg hif] at this
  exact this

/-- A handler opens its block with the next brace. -/
theorem opens_event {l l₁ l₂ : Location} {next : Brace} {opened : List Brace} {name : String}
    {event : Event} (hts : ts = ⟨.keyword .eventWord, l₁⟩ :: mid)
    (hmid : mid = ⟨.ident name, l₂⟩ :: rest) (hevent : Event.ofName? name = some event) :
    Opens ⟨next, .state l :: opened⟩ ts [] ⟨.block (.handler l event), .state l :: opened⟩
      rest := by
  subst hmid
  have := opens_token (n := ⟨next, .state l :: opened⟩) hts
  simp only [Nesting.after, firstName?, Option.bind_some, hevent, Option.map_some,
    Option.getD_some] at this
  exact this

/-- A plain token leaves the nesting as it is. -/
theorem after_plain {t : Token} (ht : Plain t.kind) : n.after t ts = n := by
  obtain ⟨hkeyword, hleft, hright⟩ := ht
  unfold Nesting.after
  split <;> simp_all [Inert, IsOneOf]

/-- A plain token opens nothing. -/
theorem opening?_plain {t : Token} (ht : Plain t.kind) : n.opening? t ts = none := by
  obtain ⟨hkeyword, hleft, hright⟩ := ht
  unfold Nesting.opening?
  split <;> simp_all [Inert, IsOneOf]

/-- Any number of plain tokens do the same. -/
theorem opens_skips (h : Skips Plain ts rest) : Opens n ts [] n rest := by
  obtain ⟨taken, rfl, htaken⟩ := h
  induction taken with
  | nil => rfl
  | cons t taken ih =>
    have ht := htaken t (.head _)
    rw [Opens, List.cons_append, Nesting.openings, after_plain ht, opening?_plain ht]
    exact ih fun t ht => htaken t (.tail _ ht)

/-- All parts in which no block can stand are made of plain tokens. -/
theorem madeOf_plain (p : Part) (hp : p ∉ blockParts) : (rule p).MadeOf Plain (· ∉ blockParts) := by
  cases p with
  | program | block | statement | ifStatement => simp [blockParts] at hp
  | expression level =>
    cases level <;> simp [rule, separated, register, Plain, blockParts]
  | _ => simp [rule, separated, Plain, blockParts]

/-- Nothing is opened in what is made of plain tokens and of parts without blocks. -/
theorem opens_of_holds {x : Phrase} (hx : x.MadeOf Plain (· ∉ blockParts))
    (h : x.Holds derived ts rest) : Opens n ts [] n rest :=
  opens_skips ((derives_of_holds h).skips madeOf_plain hx)

/-! ## Blocks and statements -/

/-- A simple statement refers to no block. -/
theorem references_simpleStatement {finish : Location} {st : Statement} {r : Shorter ts}
    (h : simpleStatement finish ts = .ok (st, r)) : st.references = [] := by
  have := targets_simpleStatement h
  rwa [← Statement.map_snd_references, List.map_eq_nil_iff] at this

/-- A simple statement is located at its first token. -/
theorem firstStatement?_simpleStatement {finish : Location} {st : Statement} {r : Shorter ts}
    (h : simpleStatement finish ts = .ok (st, r)) : firstStatement? ts = some st.location := by
  rw [simpleStatement] at h
  obtain ⟨⟨name, r₁⟩, h₁, h⟩ := bind_eq_ok h
  have hfirst : firstStatement? ts = some (here finish ts) := by
    obtain ⟨l, hts⟩ := of_expectIdent h₁
    rw [hts]
    rfl
  simp only at h
  split at h
  · obtain ⟨⟨args, r₂⟩, -, h⟩ := bind_eq_ok h
    obtain ⟨r₃, -, h⟩ := bind_eq_ok h
    cases h
    exact hfirst
  · obtain ⟨⟨register, r₂⟩, -, h⟩ := bind_eq_ok h
    obtain ⟨r₃, -, h⟩ := bind_eq_ok h
    obtain ⟨⟨value, r₄⟩, -, h⟩ := bind_eq_ok h
    obtain ⟨r₅, -, h⟩ := bind_eq_ok h
    cases h
    exact hfirst
  · obtain ⟨r₂, -, h⟩ := bind_eq_ok h
    obtain ⟨⟨value, r₃⟩, -, h⟩ := bind_eq_ok h
    obtain ⟨r₄, -, h⟩ := bind_eq_ok h
    cases h
    exact hfirst
  · cases h

/-- A simple statement opens no block. -/
theorem opens_simpleStatement {finish : Location} {st : Statement} {r : Shorter ts}
    (h : simpleStatement finish ts = .ok (st, r)) : Opens n ts [] n r.1 :=
  opens_of_holds (by simp [Phrase.simpleStatement, register, Plain, blockParts])
    (holds_simpleStatement h)

mutual

/-- A block belongs to the owner that the next brace is for. -/
theorem numbers_block (finish : Location) (base : Nat) (ts : List Token) {chunk : Chunk}
    {r : Shorter ts} (h : block finish base ts = .ok (chunk, r)) (owner : Owner) :
    ∃ os, Numbers base [(owner, base)] chunk os ∧
      ∀ opened, Opens ⟨.block owner, opened⟩ ts os ⟨.block owner, opened⟩ r.1 := by
  rw [block] at h
  obtain ⟨r₁, h₁, h⟩ := bind_eq_ok h
  obtain ⟨⟨body, chunk', r₂⟩, h₂, h⟩ := bind_eq_ok h
  cases h
  obtain ⟨l, hts⟩ := of_expect h₁
  obtain ⟨os, hnumbers, hfirst, hopens⟩ := numbers_statements finish _ (base + 1) r₁.1 h₂
  refine ⟨_, hnumbers.block owner, fun opened => ?_⟩
  rw [hfirst]
  have hbrace : Opens ⟨.block owner, opened⟩ ts [⟨owner, firstStatement? r₁.1⟩]
      ⟨.block owner, .block owner :: opened⟩ r₁.1 := opens_token hts
  exact hbrace.trans (hopens _ _ _)
termination_by (ts.length, 0)
decreasing_by exact Shorter.lex_left _ _ _

/-- The closing brace gives back what its opening brace was for. -/
theorem numbers_statements (finish start : Location) (base : Nat) (ts : List Token) {body : Block}
    {chunk : Chunk} {r : Shorter ts} (h : statements finish start base ts = .ok (body, chunk, r)) :
    ∃ os, Numbers base (body.flatMap Statement.references) chunk os ∧
      body.head?.map Statement.location = firstStatement? ts ∧
      ∀ next b opened, Opens ⟨next, b :: opened⟩ ts os ⟨b, opened⟩ r.1 := by
  rw [statements] at h
  split at h
  · next r₁ h₁ =>
    cases h
    obtain ⟨l, hts⟩ := of_accept? h₁
    refine ⟨[], .nil base, ?_, fun next b opened => opens_token hts⟩
    rw [hts]
    rfl
  · split at h
    · cases h
    · obtain ⟨⟨first, chunk₁, r₁⟩, h₁, h⟩ := bind_eq_ok h
      obtain ⟨⟨others, chunk₂, r₂⟩, h₂, h⟩ := bind_eq_ok h
      cases h
      obtain ⟨os₁, hnumbers₁, hfirst, hopens₁⟩ := numbers_statement finish base ts h₁
      obtain ⟨os₂, hnumbers₂, -, hopens₂⟩ :=
        numbers_statements finish start (base + chunk₁.length) r₁.1 h₂
      refine ⟨os₁ ++ os₂, hnumbers₁.append hnumbers₂, hfirst.symm, fun next b opened => ?_⟩
      obtain ⟨next', hopens₁⟩ := hopens₁ next (b :: opened)
      exact hopens₁.trans (hopens₂ _ _ _)
termination_by (ts.length, 2)
decreasing_by
  · exact Prod.Lex.right _ (by decide)
  · exact Shorter.lex_left _ _ _

/-- A statement opens the blocks it refers to. -/
theorem numbers_statement (finish : Location) (base : Nat) (ts : List Token) {st : Statement}
    {chunk : Chunk} {r : Shorter ts} (h : statement finish base ts = .ok (st, chunk, r)) :
    ∃ os, Numbers base st.references chunk os ∧ firstStatement? ts = some st.location ∧
      ∀ next opened, ∃ next', Opens ⟨next, opened⟩ ts os ⟨next', opened⟩ r.1 := by
  rw [statement] at h
  split at h
  · exact numbers_ifStatement finish base ts h
  · obtain ⟨⟨st', r₁⟩, h₁, h⟩ := bind_eq_ok h
    cases h
    refine ⟨[], ?_, firstStatement?_simpleStatement h₁, fun next opened =>
      ⟨next, opens_simpleStatement h₁⟩⟩
    rw [references_simpleStatement h₁]
    exact .nil base
termination_by (ts.length, 1)
decreasing_by exact Prod.Lex.right _ (by decide)

/-- **An `if`** opens the block of its first branch and then that of the other, each with all that
    is nested in it. -/
theorem numbers_ifStatement (finish : Location) (base : Nat) (ts : List Token) {st : Statement}
    {chunk : Chunk} {r : Shorter ts} (h : ifStatement finish base ts = .ok (st, chunk, r)) :
    ∃ os, Numbers base st.references chunk os ∧ firstStatement? ts = some st.location ∧
      ∀ next opened, ∃ next', Opens ⟨next, opened⟩ ts os ⟨next', opened⟩ r.1 := by
  rw [ifStatement] at h
  obtain ⟨r₁, h₁, h⟩ := bind_eq_ok h
  obtain ⟨r₂, h₂, h⟩ := bind_eq_ok h
  obtain ⟨⟨condition, r₃⟩, h₃, h⟩ := bind_eq_ok h
  obtain ⟨r₄, h₄, h⟩ := bind_eq_ok h
  obtain ⟨⟨thenChunk, r₅⟩, h₅, h⟩ := bind_eq_ok h
  obtain ⟨l, hts⟩ := of_expect h₁
  have hl : here finish ts = l := by rw [hts]; rfl
  have hfirst : firstStatement? ts = some l := by rw [hts]; rfl
  rw [hl] at h
  -- up to the opening brace nothing is opened, and that brace is for the branch taken first
  have hhead : (mark .leftParen ++ (Phrase.expression .ternary ++ mark .rightParen)).Holds derived
      r₁.1 r₄.1 := ⟨_, holds_mark.mpr (of_expect h₂), _, derives_expression finish _ _ h₃,
    holds_mark.mpr (of_expect h₄)⟩
  have hopensHead : ∀ next opened, Opens ⟨next, opened⟩ ts [] ⟨.block (.thenBranch l), opened⟩
      r₄.1 := by
    intro next opened
    have hif : Opens ⟨next, opened⟩ ts [] ⟨.block (.thenBranch l), opened⟩ r₁.1 :=
      opens_token hts
    exact hif.trans (opens_of_holds (by simp [Plain, blockParts]) hhead)
  obtain ⟨os, hnumbers, hopens⟩ := numbers_block finish base
    (r₁.trans (r₂.trans (r₃.trans r₄))).1 h₅ (.thenBranch l)
  have hopensThen : ∀ next opened, Opens ⟨next, opened⟩ ts os ⟨.block (.thenBranch l), opened⟩
      r₅.1 := fun next opened => (hopensHead next opened).trans (hopens opened)
  simp only at h
  split at h
  · cases h
    exact ⟨os, hnumbers, hfirst,
      fun next opened => ⟨.block (.thenBranch l), hopensThen next opened⟩⟩
  · next r₆ h₆ =>
    obtain ⟨l', helse⟩ := of_accept? h₆
    split at h
    · -- `else if`: the block of the `else` begins here, with the inner `if`
      next hif =>
      obtain ⟨⟨inner, chunk', r₇⟩, h₇, h⟩ := bind_eq_ok h
      cases h
      obtain ⟨os', hnumbers', hfirst', hopens'⟩ := numbers_ifStatement finish _
        (((r₁.trans (r₂.trans (r₃.trans r₄))).trans r₅).trans r₆).1 h₇
      refine ⟨_, hnumbers.append (hnumbers'.single (.elseBranch l)), hfirst,
        fun next opened => ?_⟩
      obtain ⟨next', hopens'⟩ := hopens' (.block (.elseBranch l)) opened
      exact ⟨next', (hopensThen next opened).trans
        ((opens_elseIf helse hif hfirst').trans hopens')⟩
    · next hif =>
      obtain ⟨⟨elseChunk, r₇⟩, h₇, h⟩ := bind_eq_ok h
      cases h
      obtain ⟨os', hnumbers', hopens'⟩ := numbers_block finish _
        (((r₁.trans (r₂.trans (r₃.trans r₄))).trans r₅).trans r₆).1 h₇ (.elseBranch l)
      refine ⟨_, hnumbers.append hnumbers', hfirst, fun next opened => ⟨.block (.elseBranch l), ?_⟩⟩
      exact (hopensThen next opened).trans ((opens_else helse hif).trans (hopens' opened))
termination_by (ts.length, 0)
decreasing_by all_goals exact Shorter.lex_left _ _ _

end

/-! ## Declarations -/

/-- Each handler opens a block of its own, behind those of the handlers before it. -/
theorem numbers_handlers (finish start : Location) (name : String) (base : Nat)
    (found : EventMap BlockId) (ts : List Token) {all : EventMap BlockId} {chunk : Chunk}
    {r : Shorter ts} (h : handlers finish start name base found ts = .ok (all, chunk, r))
    (l : Location) :
    ∃ added os, (all.references l).Perm (found.references l ++ added) ∧
      Numbers base added chunk os ∧
      ∀ next opened, Opens ⟨next, .state l :: opened⟩ ts os ⟨.state l, opened⟩ r.1 := by
  rw [handlers] at h
  split at h
  · next r₁ h₁ =>
    cases h
    obtain ⟨l', hts⟩ := of_accept? h₁
    exact ⟨[], [], by simp, .nil base, fun next opened => opens_token hts⟩
  · split at h
    · cases h
    · obtain ⟨r₁, h₁, h⟩ := bind_eq_ok h
      obtain ⟨⟨eventName, r₂⟩, h₂, h⟩ := bind_eq_ok h
      simp only at h
      split at h
      · next event hevent =>
        split at h
        · cases h
        · next hfound =>
          obtain ⟨r₃, h₃, h⟩ := bind_eq_ok h
          obtain ⟨r₄, h₄, h⟩ := bind_eq_ok h
          obtain ⟨⟨chunk₁, r₅⟩, h₅, h⟩ := bind_eq_ok h
          obtain ⟨⟨all', chunk₂, r₆⟩, h₆, h⟩ := bind_eq_ok h
          cases h
          obtain ⟨l₁, hts⟩ := of_expect h₁
          obtain ⟨l₂, hname⟩ := of_expectIdent h₂
          have hhead : (mark .leftParen ++ mark .rightParen).Holds derived r₂.1 r₄.1 :=
            ⟨_, holds_mark.mpr (of_expect h₃), holds_mark.mpr (of_expect h₄)⟩
          have hopensHead : ∀ next opened, Opens ⟨next, .state l :: opened⟩ ts []
              ⟨.block (.handler l event), .state l :: opened⟩ r₄.1 := fun next opened =>
            (opens_event hts hname hevent).trans
              (opens_of_holds (by simp [Plain, blockParts]) hhead)
          obtain ⟨os₁, hnumbers₁, hopens₁⟩ := numbers_block finish base r₄.1 h₅ (.handler l event)
          obtain ⟨added, os₂, hadded, hnumbers₂, hopens₂⟩ := numbers_handlers finish start name
            (base + chunk₁.length) (found.insert event base)
            (r₁.trans (r₂.trans (r₃.trans (r₄.trans r₅)))).1 h₆ l
          refine ⟨_, os₁ ++ os₂, ?_, hnumbers₁.append hnumbers₂, fun next opened =>
            (hopensHead next opened).trans ((hopens₁ _).trans (hopens₂ _ _))⟩
          -- the new entry moves behind those already found
          have hinsert := EventMap.references_insert (by simpa using hfound) l base
          refine hadded.trans ((hinsert.append_right added).trans ?_)
          exact List.perm_middle.symm
      · cases h
termination_by ts.length
decreasing_by exact Shorter.length_lt _

/-- A state opens the blocks of its handlers. -/
theorem numbers_stateDeclaration {finish : Location} {script script' : Script} {ts : List Token}
    {r : Shorter ts} (h : stateDeclaration finish script ts = .ok (script', r)) {os : List Opening}
    (hs : Numbers 0 script.handlerReferences script.blocks os) :
    ∃ os', Numbers 0 script'.handlerReferences script'.blocks (os ++ os') ∧
      ∀ next opened, ∃ next', Opens ⟨next, opened⟩ ts os' ⟨next', opened⟩ r.1 := by
  rw [stateDeclaration] at h
  obtain ⟨r₁, h₁, h⟩ := bind_eq_ok h
  obtain ⟨⟨name, r₂⟩, h₂, h⟩ := bind_eq_ok h
  simp only at h
  split at h
  · cases h
  · obtain ⟨r₃, h₃, h⟩ := bind_eq_ok h
    obtain ⟨⟨condition, r₄⟩, h₄, h⟩ := bind_eq_ok h
    obtain ⟨r₅, h₅, h⟩ := bind_eq_ok h
    obtain ⟨r₆, h₆, h⟩ := bind_eq_ok h
    obtain ⟨⟨found, chunk, r₇⟩, h₇, h⟩ := bind_eq_ok h
    cases h
    obtain ⟨l, hts⟩ := of_expect h₁
    obtain ⟨l₂, hname⟩ := of_expectIdent h₂
    obtain ⟨l₃, hbrace⟩ := of_expect h₆
    obtain ⟨added, os', hadded, hnumbers, hopens⟩ := numbers_handlers _ _ _ _ _ _ h₇ l
    have hl : here finish ts = l := by rw [hts]; rfl
    have hhead : (ident ++ (mark .leftParen ++ (Phrase.expression .ternary ++
        mark .rightParen))).Holds derived r₁.1 r₅.1 :=
      ⟨_, holds_ident.mpr ⟨_, _, hname⟩, _, holds_mark.mpr (of_expect h₃), _,
        derives_expression finish _ _ h₄, holds_mark.mpr (of_expect h₅)⟩
    have hopensHead : ∀ next opened, Opens ⟨next, opened⟩ ts [] ⟨.state l, .state l :: opened⟩
        r₆.1 := by
      intro next opened
      have hstate : Opens ⟨next, opened⟩ ts [] ⟨.state l, opened⟩ r₁.1 := opens_token hts
      have hopening : Opens ⟨.state l, opened⟩ r₅.1 [] ⟨.state l, .state l :: opened⟩ r₆.1 :=
        opens_token hbrace
      exact hstate.trans ((opens_of_holds (by simp [Plain, blockParts]) hhead).trans
        hopening)
    refine ⟨os', ?_, fun next opened => ⟨_, (hopensHead next opened).trans (hopens _ _)⟩⟩
    rw [Script.handlerReferences, List.flatMap_append, List.flatMap_singleton, hl]
    exact hs.append (by simpa using hnumbers.perm hadded)

/-- Constants and variables add no handlers. -/
theorem states_constant {finish : Location} {script script' : Script} {r : Shorter ts}
    (h : constant finish script ts = .ok (script', r)) : script'.states = script.states := by
  rw [constant] at h
  obtain ⟨r₁, -, h⟩ := bind_eq_ok h
  obtain ⟨⟨name, r₂⟩, -, h⟩ := bind_eq_ok h
  obtain ⟨-, -, h⟩ := bind_eq_ok h
  obtain ⟨r₃, -, h⟩ := bind_eq_ok h
  obtain ⟨⟨value, r₄⟩, -, h⟩ := bind_eq_ok h
  obtain ⟨r₅, -, h⟩ := bind_eq_ok h
  cases h
  rfl

/-- A variable adds none either. -/
theorem states_variableDeclaration {finish : Location} {script script' : Script} {r : Shorter ts}
    (h : variableDeclaration finish script ts = .ok (script', r)) :
    script'.states = script.states := by
  rw [variableDeclaration] at h
  obtain ⟨r₁, -, h⟩ := bind_eq_ok h
  obtain ⟨⟨name, r₂⟩, -, h⟩ := bind_eq_ok h
  obtain ⟨-, -, h⟩ := bind_eq_ok h
  obtain ⟨⟨initial, r₃⟩, -, h⟩ := bind_eq_ok h
  obtain ⟨r₄, -, h⟩ := bind_eq_ok h
  cases h
  rfl

/-- A variable opens nothing. -/
theorem numbers_variableDeclaration {finish : Location} {script script' : Script} {r : Shorter ts}
    (h : variableDeclaration finish script ts = .ok (script', r)) {os : List Opening}
    (hs : Numbers 0 script.handlerReferences script.blocks os) :
    ∃ os', Numbers 0 script'.handlerReferences script'.blocks (os ++ os') ∧
      ∀ next opened, ∃ next', Opens ⟨next, opened⟩ ts os' ⟨next', opened⟩ r.1 := by
  refine ⟨[], ?_, fun next opened => ⟨next, opens_of_holds ?_ (of_variableDeclaration h).1⟩⟩
  · rwa [Script.handlerReferences, states_variableDeclaration h, blocks_variableDeclaration h,
      List.append_nil]
  · simp [Phrase.variableDeclaration, Plain, blockParts]

/-- A declaration brings the blocks that are opened in it. -/
theorem numbers_declaration {finish : Location} {script script' : Script} {ts : List Token}
    {r : Shorter ts} (h : declaration finish script ts = .ok (script', r)) {os : List Opening}
    (hs : Numbers 0 script.handlerReferences script.blocks os) :
    ∃ os', Numbers 0 script'.handlerReferences script'.blocks (os ++ os') ∧
      ∀ next opened, ∃ next', Opens ⟨next, opened⟩ ts os' ⟨next', opened⟩ r.1 := by
  rw [declaration] at h
  split at h
  · refine ⟨[], ?_, fun next opened => ⟨next, opens_of_holds ?_ (of_constant h).1⟩⟩
    · rwa [Script.handlerReferences, states_constant h, blocks_constant h, List.append_nil]
    · simp [Phrase.constant, Plain, blockParts]
  · exact numbers_variableDeclaration h hs
  · exact numbers_variableDeclaration h hs
  · exact numbers_stateDeclaration h hs
  · cases h

/-- **All declarations**: the openings of the whole text are those of the whole script. -/
theorem numbers_declarations (finish : Location) (script : Script) (ts : List Token)
    (hts : Ended l ts) {script' : Script} (h : declarations finish script ts = .ok script')
    {os : List Opening} (hs : Numbers 0 script.handlerReferences script.blocks os) (n : Nesting) :
    Numbers 0 script'.handlerReferences script'.blocks (os ++ n.openings ts) := by
  rw [declarations] at h
  split at h
  · next hpeek =>
    cases h
    have hend : n.openings [⟨.endOfFile, l⟩] = [] := rfl
    rwa [hts.eq_of_peek hpeek, hend, List.append_nil]
  · obtain ⟨⟨script₁, r₁⟩, h₁, h⟩ := bind_eq_ok h
    obtain ⟨os₁, hs₁, hopens⟩ := numbers_declaration h₁ hs
    obtain ⟨next', hopens⟩ := hopens n.next n.opened
    rw [show n.openings ts = os₁ ++ _ from hopens, ← List.append_assoc]
    exact numbers_declarations finish script₁ r₁.1
      (hts.skips (skips_declaration (of_declaration h₁).1)) h hs₁ _
termination_by ts.length
decreasing_by exact Shorter.length_lt _

end Parser

/-- **A script that was read from a text** numbers its blocks as they are opened there.  No two
    tokens of the text stand in the same place, so that a location tells which state or `if` an
    owner is. -/
theorem Script.numbered_of_parse {source : String} {script : Script}
    (h : Script.parse source = .ok script) :
    ∃ ts, Token.tokenize source = .ok ts ∧ (ts.map Token.location).Nodup ∧
      script.Numbered (Token.openings ts) := by
  have hforward := Script.forward_of_parse h
  rw [parse] at h
  obtain ⟨ts, hts, h⟩ := Parser.bind_eq_ok h
  obtain ⟨⟨l, hended⟩, -⟩ := Token.of_scan _ _ hts
  have hnumbers := Parser.numbers_declarations _ _ _ hended h (.nil 0) ⟨.state .start, []⟩
  have honce := hnumbers.inOrder.map Prod.snd
  rw [List.zipIdx_map_snd, List.length_map, ← hnumbers.length_eq, ← List.range_eq_range'] at honce
  exact ⟨ts, hts, Token.nodup_of_tokenize hts, honce, hnumbers.inOrder, hforward,
    hnumbers.contents⟩

/-- A script with an `else if`, which gets block 2 and comes before the block of its inner `if`. -/
def elseIfText : String :=
  "state S(a) \x7b event loop() \x7b if (b) \x7b \x7d else if (c) \x7b f(); \x7d \x7d \x7d"

/-- The script that it is, with one block of its own for the `if` behind `else`. -/
def elseIfScript : Script where
  states := [⟨"S", .symbol "a", EventMap.empty.insert .loop 0, ⟨1, 1⟩⟩]
  blocks :=
    [[.ifElse (.symbol "b") 1 (some 2) ⟨1, 29⟩], [], [.ifElse (.symbol "c") 3 none ⟨1, 45⟩],
     [.call "f" [] ⟨1, 54⟩]]

theorem numbered_elseIf :
    Script.parse elseIfText = .ok elseIfScript ∧
      ∃ ts, Token.tokenize elseIfText = .ok ts ∧ (ts.map Token.location).Nodup ∧
        elseIfScript.Numbered (Token.openings ts) := by
  have h : Script.parse elseIfText = .ok elseIfScript := by cbv
  exact ⟨h, Script.numbered_of_parse h⟩

end ActorScript
