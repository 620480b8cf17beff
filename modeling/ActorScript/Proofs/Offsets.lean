/-
  Where the cursor stands in the bytes of a source.

  The lexer on characters says at every moment which characters are left (`skipGap`, `lexeme`).  The
  cursor in front of these has passed the bytes of all the others (`Reading.before`), so its offset
  is a boundary of characters, and the slices that begin or end there exist (`slice?_of_append`).
  Each reading therefore gives a result, and leaves the cursor in front of the characters which the
  lexer leaves: first the single steps, then gaps, lexemes and whole tokens.

  That the readings come to an end is part of this.  A round of a loop that is not the last takes a
  character at least, so there are rounds enough for all of them (`loop_of_inl`), and each loop is
  followed along the characters that are left.
-/
import ActorScript.Token.Bytes
import ActorScript.Proofs.Spelling

namespace ActorScript.Token

/-! ## Slices -/

/-- Behind whole characters is a boundary of characters. -/
theorem isValid_of_append {source : String} {front rest : List Char}
    (h : source.toList = front ++ rest) :
    (⟨String.utf8Len front⟩ : String.Pos.Raw).IsValid source := by
  refine String.Pos.Raw.isValid_iff_exists_append.mpr
    ⟨String.ofList front, String.ofList rest, ?_, ?_⟩
  · rw [← String.ofList_append, ← h, String.ofList_toList]
  · rw [← String.utf8ByteSize_ofList]
    rfl

/-- **Between whole characters** a slice exists, and it is made of the characters in between. -/
theorem slice?_of_append {source : String} {front cs rest : List Char}
    (h : source.toList = front ++ (cs ++ rest)) :
    slice? source (String.utf8Len front) (String.utf8Len (front ++ cs)) =
      some (String.ofList cs) := by
  have hstart := isValid_of_append h
  have hstop := isValid_of_append (h.trans (List.append_assoc front cs rest).symm)
  have hle : String.utf8Len front ≤ String.utf8Len (front ++ cs) := by
    rw [String.utf8Len_append]
    exact Nat.le_add_right _ _
  rw [slice?, dif_pos ⟨hstart, hstop, hle⟩]
  refine congrArg some (String.toByteArray_inj.mp ?_)
  have hbytes : source.toByteArray = front.utf8Encode ++ (cs.utf8Encode ++ rest.utf8Encode) := by
    rw [← List.utf8Encode_append, ← List.utf8Encode_append, ← h, ← String.toByteArray_ofList,
      String.ofList_toList]
  have hsize : ∀ cs : List Char, cs.utf8Encode.size = String.utf8Len cs := by
    intro cs
    rw [← String.toByteArray_ofList, String.size_toByteArray, String.utf8ByteSize_ofList]
  show source.toByteArray.extract (String.utf8Len front) (String.utf8Len (front ++ cs)) =
    (String.ofList cs).toByteArray
  have hbehind := ByteArray.extract_append_size_add (a := front.utf8Encode)
    (b := cs.utf8Encode ++ rest.utf8Encode) (i := 0) (j := cs.utf8Encode.size)
  rw [Nat.add_zero] at hbehind
  rw [hbytes, String.toByteArray_ofList, String.utf8Len_append, ← hsize, ← hsize, hbehind]
  exact ByteArray.extract_append_eq_left rfl

example : slice? "é" 0 2 = some "é" ∧ slice? "é" 0 1 = none := by decide

/-! ## Steps -/

namespace Reading

variable {α β σ : Type}

/-- A step that was read leads on to what follows. -/
theorem bind_of_ok {x : Reading α} {c c' : Cursor} {a : α} (h : x c = some (.ok (a, c')))
    (f : α → Reading β) : (x >>= f) c = f a c' := by
  show (ExceptT.bind (x c) fun p => f p.1 p.2) = _
  rw [h]
  rfl

/-- A step that was refused ends the reading. -/
theorem bind_of_error {x : Reading α} {c : Cursor} {e : Error} (h : x c = some (.error e))
    (f : α → Reading β) : (x >>= f) c = some (.error e) := by
  show (ExceptT.bind (x c) fun p => f p.1 p.2) = _
  rw [h]
  rfl

/-- **A reading of two parts** that has a result is refused in the first, or goes on in the
    second. -/
theorem bind_cases {x : Reading α} {f : α → Reading β} {c : Cursor}
    {r : Except Error (β × Cursor)} (h : (x >>= f) c = some r) :
    (∃ e, x c = some (.error e) ∧ r = .error e) ∨
      ∃ a c', x c = some (.ok (a, c')) ∧ f a c' = some r := by
  have hbind : ExceptT.bind (x c) (fun p => f p.1 p.2) = some r := h
  match hx : x c with
  | none =>
    rw [hx] at hbind
    cases hbind
  | some (.error e) =>
    rw [hx] at hbind
    cases hbind
    exact .inl ⟨e, rfl, rfl⟩
  | some (.ok (a, c')) =>
    rw [hx] at hbind
    exact .inr ⟨a, c', rfl, hbind⟩

/-- The cursor in front of the last characters of a source. -/
def before (source : String) (rest : List Char) (l : Location) : Cursor :=
  ⟨source, source.utf8ByteSize - String.utf8Len rest, l⟩

variable {source : String} {front cs rest : List Char} {l : Location}

/-- What is left behind the next character is still the end of the source. -/
theorem tail_suffix {ch : Char} (h : ch :: rest <:+ source.toList) : rest <:+ source.toList :=
  (List.suffix_cons ch rest).trans h

/-- The offset of a cursor is the number of bytes in front of it. -/
theorem offset_before (h : source.toList = front ++ rest) (l : Location) :
    (before source rest l).offset = String.utf8Len front := by
  show source.utf8ByteSize - String.utf8Len rest = String.utf8Len front
  rw [← String.ofList_toList (s := source), String.utf8ByteSize_ofList, h, String.utf8Len_append]
  exact Nat.add_sub_cancel _ _

/-- The cursor cuts out what stands between an offset that it had and the one that it has. -/
theorem slice_before {start : Nat} (h : source.toList = front ++ (cs ++ rest)) (l l' : Location)
    (hstart : (before source (cs ++ rest) l).offset = start) :
    slice start (before source rest l').offset (before source rest l') =
      some (.ok (String.ofList cs, before source rest l')) := by
  rw [offset_before h] at hstart
  rw [offset_before (h.trans (List.append_assoc front cs rest).symm), ← hstart]
  show (slice? source _ _).map _ = _
  rw [slice?_of_append h]
  rfl

/-- From the cursor to the end, there are the characters that are left. -/
theorem ahead_before (h : rest <:+ source.toList) (l : Location) :
    ahead (before source rest l) = some (.ok (String.ofList rest, before source rest l)) := by
  obtain ⟨front, h⟩ := h
  have hend : source.toList = front ++ (rest ++ []) := by rw [List.append_nil, h]
  have hsize : source.utf8ByteSize = String.utf8Len (front ++ rest) := by
    rw [h, ← String.utf8ByteSize_ofList, String.ofList_toList]
  rw [ahead, offset_before h.symm]
  show (slice? source _ source.utf8ByteSize).map _ = _
  rw [hsize, slice?_of_append hend]
  rfl

/-- **What comes next** is the first character of the rest. -/
theorem peek_before (h : rest <:+ source.toList) (l : Location) :
    peek (before source rest l) = some (.ok (rest.head?, before source rest l)) := by
  rw [peek, bind_of_ok (ahead_before h l), String.toList_ofList]
  rfl

/-- **What comes behind the next character** is the second one of the rest. -/
theorem peekBehind_before (h : rest <:+ source.toList) (l : Location) :
    peekBehind (before source rest l) = some (.ok (rest.tail.head?, before source rest l)) := by
  rw [peekBehind, bind_of_ok (ahead_before h l), String.toList_ofList]
  rfl

/-- At the end of the text a cursor stays. -/
theorem advance_nil (l : Location) :
    advance (before source [] l) = some (.ok (none, before source [] l)) := by
  rw [advance, bind_of_ok (peek_before List.nil_suffix l)]
  rfl

/-- **A step** passes all the bytes of a character. -/
theorem advance_cons {ch : Char} (h : ch :: rest <:+ source.toList) (l : Location) :
    advance (before source (ch :: rest) l) =
      some (.ok (some ch, before source rest (l.next ch))) := by
  rw [advance, bind_of_ok (peek_before h l)]
  obtain ⟨front, h⟩ := h
  have hbehind : source.toList = front ++ [ch] ++ rest := by rw [← h, List.append_assoc]; rfl
  have hoffset : (before source (ch :: rest) l).offset + ch.utf8Size =
      (before source rest (l.next ch)).offset := by
    rw [offset_before h.symm, offset_before hbehind, String.utf8Len_append, String.utf8Len_cons,
      String.utf8Len_nil, Nat.zero_add]
  show some (Except.ok (some ch, (⟨source, _, l.next ch⟩ : Cursor))) = _
  rw [hoffset]
  rfl

/-- A character that comes next is taken. -/
theorem eat_cons {ch : Char} (h : ch :: rest <:+ source.toList) (l : Location) :
    eat ch (before source (ch :: rest) l) = some (.ok (true, before source rest (l.next ch))) := by
  rw [eat, bind_of_ok (peek_before h l)]
  show (if some ch = some ch then _ else _ : Reading Bool) _ = _
  rw [if_pos rfl, bind_of_ok (advance_cons h l)]
  rfl

/-- Any other character is left. -/
theorem eat_of_ne {ch : Char} (h : rest <:+ source.toList) (hne : rest.head? ≠ some ch)
    (l : Location) : eat ch (before source rest l) = some (.ok (false, before source rest l)) := by
  rw [eat, bind_of_ok (peek_before h l), if_neg hne]
  rfl

/-! ## Loops -/

section Loop

variable {round : σ → Reading (σ ⊕ α)} {x x' : σ} {c c' : Cursor} {r : Except Error (α × Cursor)}

/-- A loop that has had rounds enough has the same result with more of them. -/
theorem loopUpTo_of_le {n n' : Nat} (hn : n ≤ n') (h : loopUpTo round n x c = some r) :
    loopUpTo round n' x c = some r := by
  induction n generalizing n' x c with
  | zero => cases h
  | succ n ih =>
    obtain ⟨n', rfl⟩ := Nat.exists_eq_add_of_lt hn
    rw [loopUpTo] at h ⊢
    rcases bind_cases h with ⟨e, hx, rfl⟩ | ⟨x' | a, c', hx, hrest⟩
    · exact bind_of_error hx _
    · rw [bind_of_ok hx]
      exact ih (by omega) hrest
    · rw [bind_of_ok hx]
      exact hrest

/-- The last round gives the result. -/
theorem loop_of_inr {a : α} (h : round x c = some (.ok (.inr a, c'))) :
    loop round x c = some (.ok (a, c')) := bind_of_ok h _

/-- A round that is refused ends the loop. -/
theorem loop_of_error {e : Error} (h : round x c = some (.error e)) :
    loop round x c = some (.error e) := bind_of_error h _

/-- **Another round** follows one that has taken something. -/
theorem loop_of_inl (h : round x c = some (.ok (.inl x', c'))) (hleft : c'.left < c.left)
    (hr : loop round x' c' = some r) : loop round x c = some r :=
  (bind_of_ok h _).trans (loopUpTo_of_le hleft hr)

/-- A loop does what it does from a place further on, if the first round does. -/
theorem loop_of_eq (h : round x c = round x' c') (hleft : c'.left ≤ c.left)
    (hr : loop round x' c' = some r) : loop round x c = some r := by
  rcases bind_cases hr with ⟨e, hx, rfl⟩ | ⟨x'' | a, c'', hx, hrest⟩
  · exact loop_of_error (h.trans hx)
  · exact (bind_of_ok (h.trans hx) _).trans (loopUpTo_of_le hleft hrest)
  · exact (bind_of_ok (h.trans hx) _).trans hrest

end Loop

/-- The bytes that are left are those of the characters that are left. -/
theorem left_before (h : rest <:+ source.toList) (l : Location) :
    (before source rest l).left = String.utf8Len rest := by
  obtain ⟨front, h⟩ := h
  show source.utf8ByteSize - (before source rest l).offset = _
  rw [offset_before h.symm, ← String.ofList_toList (s := source), String.utf8ByteSize_ofList, ← h,
    String.utf8Len_append]
  exact Nat.add_sub_cancel_left _ _

/-- Behind some characters fewer bytes are left. -/
theorem left_before_lt (h : cs <:+ source.toList) (hrest : rest <:+ cs)
    (hlength : rest.length < cs.length) (l l' : Location) :
    (before source rest l').left < (before source cs l).left := by
  rw [left_before h, left_before (hrest.trans h)]
  obtain ⟨taken, rfl⟩ := hrest
  cases taken with
  | nil => exact absurd hlength (Nat.lt_irrefl _)
  | cons c taken =>
    have hc := c.utf8Size_pos
    rw [List.cons_append, String.utf8Len_cons, String.utf8Len_append]
    omega

/-- Behind the next character fewer bytes are left. -/
theorem left_tail_lt {c : Char} (h : c :: rest <:+ source.toList) (l l' : Location) :
    (before source rest l').left < (before source (c :: rest) l).left :=
  left_before_lt h (List.suffix_cons c rest) (Nat.lt_succ_self _) l l'

/-- The induction is on the characters that are left. -/
theorem eatWhile_before (p : Char → Bool) (h : rest <:+ source.toList) (l : Location) :
    eatWhile p (before source rest l) = some (.ok ((),
      before source (rest.dropWhile p) (l.advance (rest.takeWhile p)))) := by
  induction rest generalizing l with
  | nil =>
    refine loop_of_inr ?_
    rw [whileRound, bind_of_ok (peek_before h l)]
    rfl
  | cons ch rest ih =>
    have hround : whileRound p () (before source (ch :: rest) l) =
        (if p ch then (advance >>= fun _ => pure (.inl ())) else pure (.inr ()) :
          Reading (Unit ⊕ Unit)) (before source (ch :: rest) l) := by
      rw [whileRound, bind_of_ok (peek_before h l)]
      rfl
    by_cases hp : p ch
    · rw [List.dropWhile_cons_of_pos hp, List.takeWhile_cons_of_pos hp, Location.advance_cons]
      rw [if_pos hp, bind_of_ok (advance_cons h l)] at hround
      exact loop_of_inl hround (left_tail_lt h _ _) (ih (tail_suffix h) _)
    · rw [List.dropWhile_cons_of_neg hp, List.takeWhile_cons_of_neg hp]
      rw [if_neg hp] at hround
      exact loop_of_inr hround

/-! ## Gaps -/

/-- Two characters are looked at, and the second one is sliced off only behind the first. -/
theorem comesNext_before (h : rest <:+ source.toList) (first second : Char) (l : Location) :
    comesNext first second (before source rest l) = some (.ok (
      decide (rest.head? = some first ∧ rest.tail.head? = some second), before source rest l)) := by
  rw [comesNext, bind_of_ok (peek_before h l)]
  by_cases hfirst : rest.head? = some first
  · rw [if_pos hfirst, bind_of_ok (peekBehind_before h l)]
    simp only [hfirst, true_and]
    rfl
  · rw [if_neg hfirst]
    simp only [hfirst, false_and]
    rfl

/-- What is left to do in the middle of a gap. -/
def leave : Gap → Reading Unit
  | .blanks => gap
  | .lineComment => do
    eatWhile (· ≠ '\n')
    gap
  | .blockComment start => do
    blockComment start
    gap

/-- A blank is taken, and the gap goes on. -/
theorem gap_blank {c : Char} {r : Except Error (Unit × Cursor)} (hc : Text.isBlank c)
    (h : c :: cs <:+ source.toList) {l : Location}
    (hr : gap (before source cs (l.next c)) = some r) :
    gap (before source (c :: cs) l) = some r := by
  refine loop_of_eq ?_ (Nat.le_of_lt (left_tail_lt h _ _)) hr
  rw [gapRound, bind_of_ok (eatWhile_before _ h l),
    bind_of_ok (eatWhile_before _ (tail_suffix h) _),
    List.dropWhile_cons_of_pos hc, List.takeWhile_cons_of_pos hc, Location.advance_cons]

/-- Where no blank comes next, it depends on the next two characters how a gap goes on. -/
theorem gapRound_solid (h : cs <:+ source.toList) (hblank : ∀ c ∈ cs.head?, ¬ Text.isBlank c)
    (l : Location) : gapRound () (before source cs l) =
      (if cs.head? = some '/' ∧ cs.tail.head? = some '/' then (do
        eatWhile (· ≠ '\n')
        return .inl ())
      else if cs.head? = some '/' ∧ cs.tail.head? = some '*' then (do
        let _ ← advance
        let _ ← advance
        blockComment l
        return .inl ())
      else pure (.inr ()) : Reading (Unit ⊕ Unit)) (before source cs l) := by
  have hdrop : cs.dropWhile Text.isBlank = cs := by
    cases cs with
    | nil => rfl
    | cons c cs => exact List.dropWhile_cons_of_neg (hblank c rfl)
  have htake : cs.takeWhile Text.isBlank = [] := by
    cases cs with
    | nil => rfl
    | cons c cs => exact List.takeWhile_cons_of_neg (hblank c rfl)
  rw [gapRound, bind_of_ok (eatWhile_before _ h l), hdrop, htake, Location.advance_nil,
    bind_of_ok (comesNext_before h '/' '/' l)]
  by_cases hline : cs.head? = some '/' ∧ cs.tail.head? = some '/'
  · rw [decide_eq_true hline, if_pos hline]
    rfl
  · rw [decide_eq_false hline, if_neg hline]
    show (comesNext '/' '*' >>= fun _ => _ : Reading (Unit ⊕ Unit)) _ = _
    rw [bind_of_ok (comesNext_before h '/' '*' l)]
    by_cases hblock : cs.head? = some '/' ∧ cs.tail.head? = some '*'
    · rw [decide_eq_true hblock, if_pos hblock]
      rfl
    · rw [decide_eq_false hblock, if_neg hblock]
      rfl

/-- At the end of the text there is no gap. -/
theorem gap_nil (l : Location) :
    gap (before source [] l) = some (.ok ((), before source [] l)) := by
  refine loop_of_inr ?_
  rw [gapRound_solid List.nil_suffix nofun, if_neg nofun, if_neg nofun]
  rfl

/-- The comment goes on up to the end of its line. -/
theorem leave_line {c : Char} (hc : c ≠ '\n') (h : c :: cs <:+ source.toList) (l : Location) :
    leave .lineComment (before source (c :: cs) l) =
      leave .lineComment (before source cs (l.next c)) := by
  show (eatWhile _ >>= fun _ => gap) _ = (eatWhile _ >>= fun _ => gap) _
  rw [bind_of_ok (eatWhile_before _ h l),
    bind_of_ok (eatWhile_before _ (tail_suffix h) _),
    List.dropWhile_cons_of_pos (by simpa using hc), List.takeWhile_cons_of_pos (by simpa using hc),
    Location.advance_cons]

/-- A line comment leaves the newline to the rest of the gap. -/
theorem leave_newline (h : rest <:+ source.toList) (hrest : ∀ c ∈ rest.head?, c = '\n')
    (l : Location) : leave .lineComment (before source rest l) = gap (before source rest l) := by
  show (eatWhile _ >>= fun _ => gap) _ = _
  rw [bind_of_ok (eatWhile_before _ h l)]
  cases rest with
  | nil => rfl
  | cons c rest =>
    obtain rfl := hrest c rfl
    rfl

/-- The first `*/` closes a comment. -/
theorem blockComment_end {start : Location} (h : '*' :: '/' :: cs <:+ source.toList)
    (l : Location) : blockComment start (before source ('*' :: '/' :: cs) l) =
      some (.ok ((), before source cs ((l.next '*').next '/'))) := by
  refine loop_of_inr ?_
  rw [commentRound, bind_of_ok (advance_cons h l)]
  show (eat '/' >>= fun _ => _ : Reading (Unit ⊕ Unit)) _ = _
  rw [bind_of_ok (eat_cons (tail_suffix h) _)]
  rfl

/-- Before its end, a comment goes on character by character. -/
theorem blockComment_cons {start : Location} {c : Char} {r : Except Error (Unit × Cursor)}
    (h : c :: cs <:+ source.toList) (hend : ∀ rest, c = '*' → cs = '/' :: rest → False)
    {l : Location} (hr : blockComment start (before source cs (l.next c)) = some r) :
    blockComment start (before source (c :: cs) l) = some r := by
  have hround : commentRound start () (before source (c :: cs) l) =
      some (.ok (.inl (), before source cs (l.next c))) := by
    rw [commentRound, bind_of_ok (advance_cons h l)]
    by_cases hc : c = '*'
    · subst hc
      have hnext : ¬ cs.head? = some '/' := fun hnext => by
        obtain ⟨rest, hrest⟩ := List.head?_eq_some_iff.mp hnext
        exact hend rest rfl hrest
      exact bind_of_ok (eat_of_ne (tail_suffix h) hnext _) _
    · show _ = (pure (.inl ()) : Reading (Unit ⊕ Unit)) _
      refine congrFun ?_ _
      split
      · rename_i hnone
        cases hnone
      · rename_i hstar
        cases hstar
        exact absurd rfl hc
      · rfl
  exact loop_of_inl hround (left_tail_lt h _ _) hr

/-- A comment is not closed, or it is left further on. -/
theorem blockComment_before (start : Location) (h : cs <:+ source.toList) (l : Location) :
    blockComment start (before source cs l) =
        some (.error (.atLocation .unterminatedComment start)) ∨
      ∃ rest l', rest <:+ cs ∧
        blockComment start (before source cs l) = some (.ok ((), before source rest l')) := by
  induction cs generalizing l with
  | nil =>
    refine .inl (loop_of_error ?_)
    rw [commentRound, bind_of_ok (advance_nil l)]
    rfl
  | cons c cs ih =>
    by_cases hend : ∃ rest, c = '*' ∧ cs = '/' :: rest
    · obtain ⟨rest, rfl, rfl⟩ := hend
      exact .inr ⟨rest, _, ⟨['*', '/'], rfl⟩, blockComment_end h l⟩
    · have hcons : ∀ {r}, blockComment start (before source cs (l.next c)) = some r →
          blockComment start (before source (c :: cs) l) = some r :=
        blockComment_cons h fun rest hc hcs => hend ⟨rest, hc, hcs⟩
      rcases ih (tail_suffix h) (l.next c) with hopen | ⟨rest, l', hrest, hclosed⟩
      · exact .inl (hcons hopen)
      · exact .inr ⟨rest, l', hrest.trans (List.suffix_cons c cs), hcons hclosed⟩

/-- A line comment that opens is left in the first round, and the gap goes on behind it. -/
theorem gap_lineComment {r : Except Error (Unit × Cursor)} (h : '/' :: '/' :: cs <:+ source.toList)
    {l : Location} (hr : leave .lineComment (before source cs ((l.next '/').next '/')) = some r) :
    gap (before source ('/' :: '/' :: cs) l) = some r := by
  have h' := tail_suffix h
  rw [← leave_line (by decide) h', ← leave_line (by decide) h] at hr
  rcases bind_cases hr with ⟨e, he, -⟩ | ⟨_, c', hc', hgap⟩
  · rw [eatWhile_before _ h l] at he
    cases he
  · have hround : gapRound () (before source ('/' :: '/' :: cs) l) = some (.ok (.inl (), c')) := by
      rw [gapRound_solid h (by rintro _ ⟨⟩; decide), if_pos ⟨rfl, rfl⟩, bind_of_ok hc']
      rfl
    rw [eatWhile_before _ h l] at hc'
    cases hc'
    refine loop_of_inl hround (left_before_lt h (List.dropWhile_suffix _) ?_ _ _) hgap
    show (cs.dropWhile _).length < _
    exact Nat.lt_add_right 1 (Nat.lt_succ_of_le (List.dropWhile_suffix _).length_le)

/-- A block comment that opens is left in the first round, if it is closed, and the gap goes on
    behind it. -/
theorem gap_blockComment {r : Except Error (Unit × Cursor)} (h : '/' :: '*' :: cs <:+ source.toList)
    {l : Location}
    (hr : leave (.blockComment l) (before source cs ((l.next '/').next '*')) = some r) :
    gap (before source ('/' :: '*' :: cs) l) = some r := by
  have h' := tail_suffix h
  have hround : gapRound () (before source ('/' :: '*' :: cs) l) =
      (blockComment l >>= fun _ => pure (.inl ()) : Reading (Unit ⊕ Unit))
        (before source cs ((l.next '/').next '*')) := by
    rw [gapRound_solid h (by rintro _ ⟨⟩; decide), if_neg (by simp), if_pos ⟨rfl, rfl⟩,
      bind_of_ok (advance_cons h l), bind_of_ok (advance_cons h' _)]
  rcases blockComment_before l (tail_suffix h') ((l.next '/').next '*') with
    hopen | ⟨rest, l', hrest, hclosed⟩
  · rw [bind_of_error hopen] at hround
    exact (loop_of_error hround).trans ((bind_of_error hopen _).symm.trans hr)
  · rw [bind_of_ok hclosed] at hround
    have hgap : gap (before source rest l') = some r := (bind_of_ok hclosed _).symm.trans hr
    have hsuffix : rest <:+ '/' :: '*' :: cs := hrest.trans ⟨['/', '*'], rfl⟩
    refine loop_of_inl hround (left_before_lt h hsuffix ?_ _ _) hgap
    exact Nat.lt_add_right 1 (Nat.lt_succ_of_le hrest.length_le)

/-- A gap is left in front of the characters that are left. -/
def landing (source : String) (r : Location × List Char) : Unit × Cursor :=
  ((), before source r.2 r.1)

/-- **A gap** is left at the same place, or refused for the same reason. -/
theorem leave_before (g : Gap) (h : cs <:+ source.toList) (l : Location) :
    leave g (before source cs l) = some ((skipGap g l cs).map (landing source)) := by
  fun_induction skipGap g l cs with
  | case1 l => exact gap_nil l
  | case2 l cs ih =>
    -- a line comment opens
    exact gap_lineComment h (ih (tail_suffix (tail_suffix h)))
  | case3 l cs ih =>
    -- a block comment opens
    exact gap_blockComment h (ih (tail_suffix (tail_suffix h)))
  | case4 l c cs _ _ hc ih =>
    -- a blank
    exact gap_blank hc h (ih (tail_suffix h))
  | case5 l c cs hline hblock hc =>
    -- the start of a token
    have hno : ∀ d, (∀ rest, c = '/' → cs = d :: rest → False) →
        ¬ ((c :: cs).head? = some '/' ∧ (c :: cs).tail.head? = some d) := by
      rintro d hd ⟨hfirst, hsecond⟩
      obtain ⟨rest, hrest⟩ := List.head?_eq_some_iff.mp hsecond
      exact hd rest (Option.some.inj hfirst) hrest
    refine loop_of_inr ?_
    rw [gapRound_solid h (by rintro _ ⟨⟩; exact hc), if_neg (hno '/' hline),
      if_neg (hno '*' hblock)]
    rfl
  | case6 l =>
    rw [leave_newline h (by rintro _ ⟨⟩)]
    exact gap_nil l
  | case7 l c cs ih =>
    -- in a line comment
    by_cases hc : c = '\n'
    · rw [if_pos hc] at ih ⊢
      rw [leave_newline h (by rintro _ ⟨⟩; exact hc)]
      exact gap_blank (by rw [hc]; decide) h (ih (tail_suffix h))
    · rw [if_neg hc] at ih ⊢
      rw [leave_line hc h]
      exact ih (tail_suffix h)
  | case8 start l =>
    -- the text ends in a block comment
    have hround : commentRound start () (before source [] l) =
        some (.error (.atLocation .unterminatedComment start)) := by
      rw [commentRound, bind_of_ok (advance_nil l)]
      rfl
    exact bind_of_error (loop_of_error hround) _
  | case9 start l cs ih =>
    -- a block comment is closed
    exact (bind_of_ok (blockComment_end h l) _).trans (ih (tail_suffix (tail_suffix h)))
  | case10 start l c cs hend ih =>
    rcases bind_cases (ih (tail_suffix h)) with ⟨e, hopen, hr⟩ | ⟨_, c', hclosed, hgap⟩
    · rw [hr]
      exact bind_of_error (blockComment_cons h hend hopen) _
    · exact (bind_of_ok (blockComment_cons h hend hclosed) _).trans hgap

/-! ## Lexemes -/

/-- A character of a string that stands for itself. -/
theorem stringRound_plain (start : Location) {c : Char} (value : String)
    (h : c :: cs <:+ source.toList) (hquote : c ≠ '"') (hbackslash : c ≠ '\\') (hnewline : c ≠ '\n')
    (l : Location) : stringRound start value (before source (c :: cs) l) =
      some (.ok (.inl (value.push c), before source cs (l.next c))) := by
  rw [stringRound, bind_of_ok (advance_cons h l)]
  show _ = (pure (.inl (value.push c)) : Reading (String ⊕ String)) _
  refine congrFun ?_ _
  split
  · rename_i hc
    cases hc
  · rename_i hc
    exact absurd (Option.some.inj hc) hnewline
  · rename_i hc
    exact absurd (Option.some.inj hc) hquote
  · rename_i hc
    exact absurd (Option.some.inj hc) hbackslash
  · rename_i hc
    rw [Option.some.inj hc]

/-- **The inside of a string** is read to the same value, behind what has been read of it. -/
theorem string_before (start : Location) (value : String) (h : cs <:+ source.toList)
    (l : Location) : string start value (before source cs l) = some (match stringBody cs with
      | some (inner, taken, rest) =>
        .ok (value ++ String.ofList inner, before source rest (l.advance taken))
      | none => .error (.atLocation .unterminatedString start)) := by
  fun_induction stringBody cs generalizing value l with
  | case1 =>
    refine loop_of_error ?_
    rw [stringRound, bind_of_ok (advance_nil l)]
    rfl
  | case2 cs =>
    -- the line ends
    refine loop_of_error ?_
    rw [stringRound, bind_of_ok (advance_cons h l)]
    rfl
  | case3 cs =>
    -- the string is closed
    have hround : stringRound start value (before source ('"' :: cs) l) =
        some (.ok (.inr value, before source cs (l.next '"'))) := by
      rw [stringRound, bind_of_ok (advance_cons h l)]
      rfl
    refine (loop_of_inr hround).trans ?_
    show _ = some (Except.ok (value ++ String.ofList [], _))
    rw [String.ofList_nil, String.append_empty]
    rfl
  | case4 c cs ih =>
    -- a backslash with a character
    have h' := tail_suffix h
    have hround : stringRound start value (before source ('\\' :: c :: cs) l) =
        some (.ok (.inl (value ++ String.ofList (unescape c)),
          before source cs ((l.next '\\').next c))) := by
      rw [stringRound, bind_of_ok (advance_cons h l)]
      exact bind_of_ok (advance_cons h' _) _
    have hleft := (left_tail_lt h' (l.next '\\') ((l.next '\\').next c)).trans
      (left_tail_lt h l (l.next '\\'))
    refine (loop_of_inl hround hleft (ih _ (tail_suffix h') _)).trans ?_
    cases stringBody cs with
    | none => rfl
    | some r =>
      show some (Except.ok (value ++ String.ofList (unescape c) ++ String.ofList r.1, _)) =
        some (Except.ok (value ++ String.ofList (unescape c ++ r.1), _))
      rw [String.ofList_append, String.append_assoc]
      rfl
  | case5 c cs hnewline hquote hescape ih =>
    by_cases hbackslash : c = '\\'
    · -- the text ends behind the backslash
      subst hbackslash
      cases cs with
      | nil =>
        refine loop_of_error ?_
        rw [stringRound, bind_of_ok (advance_cons h l)]
        exact bind_of_ok (advance_nil _) _
      | cons c cs => exact absurd rfl (hescape c cs rfl)
    · have hround := stringRound_plain start value h hquote hbackslash hnewline l
      refine (loop_of_inl hround (left_tail_lt h _ _) (ih _ (tail_suffix h) _)).trans ?_
      cases stringBody cs with
      | none => rfl
      | some r =>
        show some (Except.ok (value.push c ++ String.ofList r.1, _)) =
          some (Except.ok (value ++ String.ofList (c :: r.1), _))
        rw [String.push_eq_append, String.append_assoc, ← String.ofList_cons]
        rfl

/-- What starts with `c` is the longer mark if `second` comes next. -/
theorem mark_eat {c second : Char} {long : Mark} {short : Option Mark}
    (h : c :: cs <:+ source.toList)
    (hmark : mark c = do return if ← eat second then some long else short)
    (hlong : ∀ rest, Mark.leading? (c :: second :: rest) = some long)
    (hchars : long.chars = [c, second])
    (hshort : cs.head? ≠ some second → Mark.leading? (c :: cs) = short)
    (hsingle : ∀ m ∈ short, m.chars = [c]) (l : Location) :
    mark c (before source cs (l.next c)) = some (.ok (match Mark.leading? (c :: cs) with
      | some m => (some m, before source ((c :: cs).drop m.chars.length) (l.advance m.chars))
      | none => (none, before source cs (l.next c)))) := by
  have h' := tail_suffix h
  rw [hmark]
  by_cases hnext : cs.head? = some second
  · obtain ⟨rest, rfl⟩ := List.head?_eq_some_iff.mp hnext
    rw [bind_of_ok (eat_cons h' _), hlong]
    dsimp only
    rw [hchars]
    rfl
  · rw [bind_of_ok (eat_of_ne h' hnext _), hshort hnext]
    cases short with
    | none => rfl
    | some m =>
      dsimp only
      rw [hsingle m rfl]
      rfl

/-- A mark that comes next starts with the next character. -/
theorem head?_of_isPrefixOf {m : Mark} {c : Char} (h : m.chars.isPrefixOf (c :: cs)) :
    m.chars.head? = some c := by
  obtain ⟨rest, hrest⟩ := List.isPrefixOf_iff_prefix.mp h
  cases hchars : m.chars with
  | nil => exact absurd hchars m.chars_ne_nil
  | cons d ds =>
    rw [hchars, List.cons_append] at hrest
    rw [(List.cons_eq_cons.mp hrest).1]
    rfl

/-- A character that starts a mark only if it comes twice. -/
theorem leading?_single {c : Char} (hc : ∀ m : Mark, m.chars.head? = some c → m.chars = [c, c])
    (hne : cs.head? ≠ some c) : Mark.leading? (c :: cs) = none := by
  rw [Mark.leading?, List.find?_eq_none]
  intro m _ hm
  rw [hc m (head?_of_isPrefixOf hm)] at hm
  obtain ⟨rest, hrest⟩ := List.isPrefixOf_iff_prefix.mp hm
  obtain ⟨-, rfl⟩ := List.cons_eq_cons.mp hrest
  exact hne rfl

/-- A mark that only a `=` would make longer. -/
theorem leading?_assign {m : Mark} {c : Char} (hchars : m.chars = [c])
    (hm : ∀ d, m.EndsBefore d ↔ d ≠ '=') (hne : cs.head? ≠ some '=') :
    Mark.leading? (c :: cs) = some m := by
  have hends : Parted (.mark m) cs := fun d hd => (hm d).mpr (by rintro rfl; exact hne hd)
  have hlead := leading?_mark hends
  rwa [hchars] at hlead

/-- **A mark** is as long as can be. -/
theorem mark_before {c : Char} (h : c :: cs <:+ source.toList) (l : Location) :
    mark c (before source cs (l.next c)) = some (.ok (match Mark.leading? (c :: cs) with
      | some m => (some m, before source ((c :: cs).drop m.chars.length) (l.advance m.chars))
      | none => (none, before source cs (l.next c)))) := by
  have hself : ∀ {m : Mark}, m.chars = [c] → ∀ m' ∈ some m, m'.chars = [c] := by
    rintro m hm _ ⟨⟩
    exact hm
  rw [mark.eq_def]
  split
  -- four marks that a `=` makes longer
  case h_15 | h_16 | h_17 | h_18 =>
    refine mark_eat h rfl (fun _ => rfl) rfl (fun hne => ?_) (hself rfl) l
    exact leading?_assign rfl (fun _ => .rfl) hne
  -- two that are none without their second character
  case h_19 | h_20 =>
    refine mark_eat h rfl (fun _ => rfl) rfl (leading?_single fun m => ?_) nofun l
    cases m <;> decide
  -- and all other characters
  case h_21 =>
    have hlead : Mark.leading? (c :: cs) = none := by
      rw [Mark.leading?, List.find?_eq_none]
      intro m _ hm
      have hfirst := head?_of_isPrefixOf hm
      cases m <;> cases hfirst <;> contradiction
    rw [hlead]
    rfl
  all_goals rfl

/-- A word or a number is cut out with its first character. -/
theorem cut_before {c : Char} (p : Char → Bool) (h : c :: cs <:+ source.toList) (l : Location) :
    cut (before source (c :: cs) l).offset p (before source cs (l.next c)) =
      some (.ok (String.ofList (c :: cs.takeWhile p),
        before source (cs.dropWhile p) (l.advance (c :: cs.takeWhile p)))) := by
  obtain ⟨front, hfront⟩ := h
  have hcut : c :: cs = (c :: cs.takeWhile p) ++ cs.dropWhile p := by
    rw [List.cons_append, List.takeWhile_append_dropWhile]
  rw [cut, bind_of_ok (eatWhile_before p ((List.suffix_cons c cs).trans ⟨front, hfront⟩) _)]
  have hsource : source.toList = front ++ ((c :: cs.takeWhile p) ++ cs.dropWhile p) := by
    rw [← hcut, hfront]
  refine Eq.trans (bind_of_ok rfl _) (slice_before hsource l _ ?_)
  rw [hcut]

/-- **A lexeme** is taken as a whole, and ends at the same place. -/
theorem lexeme_before {c : Char} (h : c :: cs <:+ source.toList) (l : Location) :
    lexeme (before source (c :: cs) l).offset l c (before source cs (l.next c)) =
      some ((Token.lexeme l c cs).map fun (k, taken, rest) =>
        (k, before source rest (l.advance taken))) := by
  rw [lexeme, Token.lexeme, bind_of_ok (mark_before h l)]
  cases Mark.leading? (c :: cs) with
  | some m => rfl
  | none =>
    dsimp only
    by_cases hquote : c = '"'
    · have hstring := string_before l "" (tail_suffix h) (l.next c)
      rw [if_pos hquote, if_pos hquote]
      cases hbody : stringBody cs with
      | none =>
        rw [hbody] at hstring
        exact bind_of_error hstring _
      | some r =>
        rw [hbody] at hstring
        dsimp only at hstring
        rw [String.empty_append] at hstring
        rw [bind_of_ok hstring, hquote]
        rfl
    rw [if_neg hquote, if_neg hquote]
    by_cases hdigit : c.isDigit
    · rw [if_pos hdigit, if_pos hdigit, number, bind_of_ok (cut_before _ h l), String.toList_ofList]
      split
      · rfl
      · rfl
    rw [if_neg hdigit, if_neg hdigit]
    by_cases hword : startsWord c
    · rw [if_pos hword, if_pos hword, word, bind_of_ok (cut_before _ h l)]
      rfl
    · rw [if_neg hword, if_neg hword]
      rfl

/-! ## Texts -/

/-- What is behind a gap is the end of the text that was in front of it. -/
theorem skipGap_suffix {g : Gap} {l l' : Location} (h : skipGap g l cs = .ok (l', rest)) :
    rest <:+ cs := by
  fun_induction skipGap g l cs <;> grind [List.suffix_cons, List.IsSuffix.trans, List.suffix_refl]

/-- No text is the end of the file. -/
theorem lexeme_ne_endOfFile {l : Location} {c : Char} {taken : List Char} {k : TokenKind}
    (h : Token.lexeme l c cs = .ok (k, taken, rest)) : k ≠ .endOfFile := by
  unfold Token.lexeme at h
  grind [wordKind]

/-- **One token**, with the gap in front of it. -/
theorem token_before (h : cs <:+ source.toList) (l : Location) :
    token (before source cs l) = some (match skipGap .blanks l cs with
      | .error e => .error e
      | .ok (l', []) => .ok (⟨.endOfFile, l'⟩, before source [] l')
      | .ok (l', c :: rest) => (Token.lexeme l' c rest).map fun (k, taken, rest') =>
        (⟨k, l'⟩, before source rest' (l'.advance taken))) := by
  have hgap : gap (before source cs l) = _ := leave_before .blanks h l
  cases hskip : skipGap .blanks l cs with
  | error e =>
    rw [hskip] at hgap
    exact bind_of_error hgap _
  | ok r =>
    obtain ⟨l', rest⟩ := r
    have hrest := (skipGap_suffix hskip).trans h
    rw [hskip] at hgap
    rw [token, bind_of_ok hgap, bind_of_ok (x := here) rfl, bind_of_ok (x := offset) rfl]
    cases rest with
    | nil =>
      rw [bind_of_ok (advance_nil l')]
      rfl
    | cons c rest =>
      have hlexeme := lexeme_before hrest l'
      rw [bind_of_ok (advance_cons hrest l')]
      dsimp only
      cases hk : Token.lexeme l' c rest with
      | error e =>
        rw [hk] at hlexeme
        exact bind_of_error hlexeme _
      | ok r =>
        rw [hk] at hlexeme
        exact bind_of_ok hlexeme _

/-- **The cursor goes through the text** as the lexer on characters does, and always comes to an
    end.  The tokens `ts` are those that have been read in front of it. -/
theorem tokens_before (h : cs <:+ source.toList) (l : Location) (ts : List Token) :
    ∃ r, loop tokensRound ts (before source cs l) = some r ∧
      r.map Prod.fst = (scan l cs).map (ts ++ ·) := by
  induction hn : cs.length using Nat.strongRecOn generalizing cs l ts with
  | ind n ih =>
    subst hn
    have htoken := token_before h l
    cases hskip : skipGap .blanks l cs with
    | error e =>
      rw [hskip] at htoken
      rw [scan_of_skipGap_error hskip]
      exact ⟨_, loop_of_error (bind_of_error htoken _), rfl⟩
    | ok r =>
      obtain ⟨l', rest⟩ := r
      rw [hskip] at htoken
      cases rest with
      | nil =>
        rw [scan_of_skipGap_nil hskip]
        exact ⟨_, loop_of_inr (bind_of_ok htoken _), rfl⟩
      | cons c rest =>
        rw [scan_of_skipGap_cons hskip]
        cases hk : Token.lexeme l' c rest with
        | error e =>
          dsimp only at htoken
          rw [hk] at htoken
          exact ⟨_, loop_of_error (bind_of_error htoken _), rfl⟩
        | ok r =>
          obtain ⟨k, taken, rest'⟩ := r
          dsimp only at htoken
          rw [hk] at htoken
          have hround : tokensRound ts (before source cs l) =
              some (.ok (.inl (ts ++ [⟨k, l'⟩]), before source rest' (l'.advance taken))) := by
            rw [tokensRound, bind_of_ok htoken, if_neg (lexeme_ne_endOfFile hk)]
            rfl
          -- what is left is shorter, and still the end of the source
          have hshort : rest'.length < cs.length :=
            Nat.lt_of_lt_of_le (lexeme_length_lt hk) (skipGap_length_le hskip)
          have hrest : rest' <:+ cs :=
            List.IsSuffix.trans ⟨taken, lexeme_append hk⟩ (skipGap_suffix hskip)
          obtain ⟨r, hr, hscan⟩ :=
            ih _ hshort (hrest.trans h) (l'.advance taken) (ts ++ [⟨k, l'⟩]) rfl
          refine ⟨r, loop_of_inl hround (left_before_lt h hrest hshort _ _) hr, ?_⟩
          rw [hscan]
          dsimp only
          cases scan (l'.advance taken) rest' with
          | error e => rfl
          | ok others =>
            exact congrArg Except.ok (List.append_assoc ts [⟨k, l'⟩] others)

end Reading

/-- **Reading the bytes of a script** always gives a result, and gives the tokens or the error that
    come from its characters. -/
theorem readTokens_eq_tokenize (source : String) : readTokens source = some (tokenize source) := by
  have hfirst : source.toList = [] ++ source.toList := rfl
  have hstart : Reading.before source source.toList .start = { source } :=
    congrArg (Cursor.mk source · .start) (Reading.offset_before hfirst .start)
  obtain ⟨r, hr, hscan⟩ := Reading.tokens_before (List.suffix_refl source.toList) .start []
  rw [hstart] at hr
  show (Prod.fst <$> Reading.tokens { source } : ExceptT Error Option (List Token)).run = _
  have hread : r.map Prod.fst = tokenize source := by
    rw [hscan, tokenize]
    cases scan .start source.toList <;> rfl
  rw [Reading.tokens, hr, ← hread]
  cases r <;> rfl

end ActorScript.Token
