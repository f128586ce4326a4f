import PortableSql.Proofs.Query.ArgumentList

/-!
# Where fragments stand

Reading a query cuts fragments out of it: what is left behind a token, the pieces of an argument list,
the arguments in them. Each stands behind some tokens of the fragment that it is cut out of, and its
offset counts the bytes of these tokens (`LiesIn`). Standing so is transitive, so a fragment that is cut
out of an argument of an argument still has its place in the whole query.
-/
namespace PortableSql.Query

open Text

/-- What follows a reading goes on after more text, if anything follows it. -/
theorem Reads.append_text {text rest : List Char} {tokens : List Token}
    (reads : Reads text tokens rest) (remains : rest ≠ []) (back : List Char) :
    Reads (text ++ back) tokens (rest ++ back) := by
  have next : (rest ++ back).head? = rest.head? := List.head?_append_of_ne_nil rest remains
  have longer : Reads (source tokens ++ (rest ++ back)) tokens (rest ++ back) :=
    reads.replace_rest (by rw [next]; exact reads.last_standsBefore)
  rw [← List.append_assoc, reads.lossless] at longer
  exact longer

/-- Blanks are tokens, whatever follows them. -/
theorem reads_blanks {blanks : List Char} (blank : ∀ c ∈ blanks, isBlank c = true)
    (rest : List Char) : Reads (blanks ++ rest) (blanks.map Token.symbol) rest := by
  induction blanks with
  | nil => exact .nil rest
  | cons c blanks ih =>
    have visible : isBlank c = true := blank c (by simp)
    have noQuote : isQuote c = false := by
      by_contra quote
      rw [isBlank_of_isQuote (by simpa using quote)] at visible
      cases visible
    have noDigit : isDigit c = false := by
      by_contra digit
      rw [isBlank_of_isDigit (by simpa using digit)] at visible
      cases visible
    have noLetter : isNameStart c = false := by
      by_contra letter
      rw [isBlank_of_isNameStart (by simpa using letter)] at visible
      cases visible
    have noDash : c ≠ '-' := by
      rintro rfl
      cases visible
    exact .cons (.symbol noQuote noDigit noLetter fun dash => absurd dash noDash)
      (ih fun d member => blank d (by simp [member]))

theorem source_map_symbol (text : List Char) : source (text.map Token.symbol) = text := by
  induction text with
  | nil => rfl
  | cons c text ih => rw [List.map_cons, source_cons, ih]; rfl

namespace Fragment

/-- A fragment that stands behind some tokens of another one and goes on to its end. -/
def IsRestOf (rest whole : Fragment) : Prop :=
  ∃ tokens, Reads whole.text tokens rest.text ∧
    rest.offset = whole.offset + byteLength (source tokens)

/-- A fragment that stands behind some tokens of another one and is not empty. -/
def LiesIn (inner outer : Fragment) : Prop :=
  inner.text ≠ [] ∧ ∃ back, IsRestOf ⟨inner.offset, inner.text ++ back⟩ outer

variable {inner middle outer : Fragment}

theorem IsRestOf.refl (fragment : Fragment) : fragment.IsRestOf fragment :=
  ⟨[], .nil _, rfl⟩

theorem IsRestOf.trans (first : inner.IsRestOf middle) (second : middle.IsRestOf outer) :
    inner.IsRestOf outer := by
  obtain ⟨tokens, reads, place⟩ := first
  obtain ⟨before, readsBefore, placeBefore⟩ := second
  refine ⟨before ++ tokens, readsBefore.append reads, ?_⟩
  rw [place, placeBefore, source_append, byteLength_append, Nat.add_assoc]

/-- What stands behind a token of a fragment. -/
theorem isRestOf_of_nextToken? {offset : Nat} {c : Char} {cs behind : List Char} {token : Token}
    (found : nextToken? c cs = some (token, behind)) :
    IsRestOf ⟨offset + byteLength token.text, behind⟩ ⟨offset, c :: cs⟩ := by
  refine ⟨[token], .of_nextToken? found (.nil behind), ?_⟩
  rw [source_cons, source_nil, List.append_nil]

theorem IsRestOf.liesIn (rest : inner.IsRestOf outer) (remains : inner.text ≠ []) :
    inner.LiesIn outer := by
  refine ⟨remains, [], ?_⟩
  rw [List.append_nil]
  exact rest

theorem LiesIn.refl (remains : inner.text ≠ []) : inner.LiesIn inner :=
  (IsRestOf.refl inner).liesIn remains

theorem LiesIn.trans_rest (lies : inner.LiesIn middle) (rest : middle.IsRestOf outer) :
    inner.LiesIn outer := by
  obtain ⟨remains, back, place⟩ := lies
  exact ⟨remains, back, place.trans rest⟩

theorem LiesIn.trans (lies : inner.LiesIn middle) (around : middle.LiesIn outer) :
    inner.LiesIn outer := by
  obtain ⟨remains, back, tokens, reads, place⟩ := lies
  obtain ⟨_, after, rest⟩ := around
  have longer := reads.append_text (by simp [remains]) after
  rw [List.append_assoc] at longer
  have inside : IsRestOf ⟨inner.offset, inner.text ++ (back ++ after)⟩
      ⟨middle.offset, middle.text ++ after⟩ := ⟨tokens, longer, place⟩
  exact ⟨remains, back ++ after, inside.trans rest⟩

end Fragment

/-! ## Pieces -/

open Fragment

/-- The first piece begins where the list does. -/
theorem splitPieces_first (depth offset : Nat) (text : List Char) :
    (splitPieces depth offset text).first.start = ⟨offset, text⟩ := by
  fun_cases splitPieces depth offset text <;> rfl

/-- A piece in its place: it begins behind some tokens of a text, and the text goes on with it. -/
structure Piece.StandsIn (piece : Piece) (whole : Fragment) : Prop where
  start : piece.start.IsRestOf whole
  isPrefix : piece.raw <+: piece.start.text

theorem Piece.StandsIn.trans_rest {piece : Piece} {middle outer : Fragment}
    (stands : piece.StandsIn middle) (rest : middle.IsRestOf outer) : piece.StandsIn outer :=
  ⟨stands.start.trans rest, stands.isPrefix⟩

private theorem Piece.standsIn_emptyAt (fragment : Fragment) :
    (emptyAt fragment).StandsIn fragment :=
  ⟨IsRestOf.refl fragment, List.nil_prefix⟩

theorem splitPieces_standsIn (depth offset : Nat) (text : List Char) :
    ∀ piece ∈ (splitPieces depth offset text).pieces, piece.StandsIn ⟨offset, text⟩ := by
  fun_induction splitPieces depth offset text with
  | case1 depth offset => exact List.forall_mem_singleton.2 (Piece.standsIn_emptyAt _)
  | case2 depth offset c cs => exact List.forall_mem_singleton.2 (Piece.standsIn_emptyAt _)
  | case3 depth offset c cs => exact List.forall_mem_singleton.2 (Piece.standsIn_emptyAt _)
  | case4 depth offset c cs token rest found next _ split comma ih =>
    refine List.forall_mem_cons.2 ⟨Piece.standsIn_emptyAt _, fun piece member => ?_⟩
    exact (ih piece member).trans_rest (isRestOf_of_nextToken? found)
  | case5 depth offset c cs token rest found next _ split other ih =>
    obtain ⟨first, later⟩ := List.forall_mem_cons.1 ih
    refine List.forall_mem_cons.2 ⟨⟨IsRestOf.refl _, ?_⟩, fun piece member => ?_⟩
    · -- the first piece of the split behind the token begins directly behind it
      obtain ⟨back, whole⟩ := first.isPrefix
      rw [splitPieces_first] at whole
      refine ⟨back, ?_⟩
      show token.text ++ split.first.raw ++ back = c :: cs
      rw [List.append_assoc, whole, nextToken?_append found]
    · exact (later piece member).trans_rest (isRestOf_of_nextToken? found)

/-- Something stands behind the beginning of a piece that is finished. -/
theorem splitPieces_start_ne_nil (depth offset : Nat) (text : List Char) :
    (∀ piece ∈ (splitPieces depth offset text).pieces.dropLast, piece.start.text ≠ []) ∧
      ((splitPieces depth offset text).ending ≠ .unclosed →
        ∀ piece ∈ (splitPieces depth offset text).pieces, piece.start.text ≠ []) := by
  fun_induction splitPieces depth offset text with
  | case1 depth offset => exact ⟨by simp [Split.pieces], fun closed => absurd rfl closed⟩
  | case2 depth offset c cs => exact ⟨by simp [Split.pieces], by simp [Split.pieces, Piece.emptyAt]⟩
  | case3 depth offset c cs => exact ⟨by simp [Split.pieces], by simp [Split.pieces, Piece.emptyAt]⟩
  | case4 depth offset c cs token rest found next _ split comma ih =>
    obtain ⟨finished, all⟩ := ih
    refine ⟨?_, fun closed => List.forall_mem_cons.2 ⟨by simp [Piece.emptyAt], all closed⟩⟩
    exact List.forall_mem_cons.2 ⟨by simp [Piece.emptyAt], finished⟩
  | case5 depth offset c cs token rest found next _ split other ih =>
    obtain ⟨finished, all⟩ := ih
    have first : (split.first.extend ⟨offset, c :: cs⟩ token).start.text ≠ [] := by
      simp [Piece.extend]
    refine ⟨?_, fun closed => List.forall_mem_cons.2 ⟨first, fun piece member => ?_⟩⟩
    · show ∀ piece ∈ (split.first.extend _ token :: split.later).dropLast, _
      unfold Split.pieces at finished
      cases later : split.later with
      | nil => simp
      | cons second later =>
        rw [later] at finished
        exact List.forall_mem_cons.2 ⟨first, (List.forall_mem_cons.1 finished).2⟩
    · exact all closed piece (List.mem_cons_of_mem _ member)

/-- The end of a list in its place: the text behind it, or the literal that it breaks off at. -/
def Ending.StandsIn (whole : Fragment) : Ending → Prop
  | .closed behind => behind.IsRestOf whole
  | .unterminated _ literal => literal.LiesIn whole
  | .unclosed => True

theorem Ending.StandsIn.trans_rest {ending : Ending} {middle outer : Fragment}
    (stands : ending.StandsIn middle) (rest : middle.IsRestOf outer) : ending.StandsIn outer := by
  cases ending with
  | closed behind => exact IsRestOf.trans stands rest
  | unterminated quote literal => exact LiesIn.trans_rest stands rest
  | unclosed => trivial

theorem splitPieces_ending (depth offset : Nat) (text : List Char) :
    (splitPieces depth offset text).ending.StandsIn ⟨offset, text⟩ := by
  fun_induction splitPieces depth offset text with
  | case1 => trivial
  | case2 depth offset c cs => exact LiesIn.refl (by simp)
  | case3 depth offset c cs token rest found => exact isRestOf_of_nextToken? found
  | case4 depth offset c cs token rest found next _ split comma ih =>
    exact ih.trans_rest (isRestOf_of_nextToken? found)
  | case5 depth offset c cs token rest found next _ split other ih =>
    exact ih.trans_rest (isRestOf_of_nextToken? found)

/-! ## Arguments -/

namespace Piece

/-- What is kept of a piece is the beginning of it. -/
theorem kept_isPrefix (piece : Piece) : piece.kept <+: piece.raw := by
  have whole := dropEndWhile_append_drop isBlank piece.raw
  unfold kept
  dsimp only
  split
  · rename_i newline
    obtain ⟨back, shape⟩ := List.head?_eq_some_iff.1 newline.2
    refine ⟨back, ?_⟩
    rw [List.append_assoc, List.singleton_append, ← shape]
    exact whole
  · exact ⟨_, whole⟩

/-- What is kept of a piece that is not blank is not blank. -/
theorem trimStart_kept_ne_nil {piece : Piece} (visible : allBlank piece.raw = false) :
    trimStart piece.kept ≠ [] := by
  have body : trimStart (trimEnd piece.raw) ≠ [] := by
    rw [ne_eq, trimStart_eq_nil_iff, allBlank_trimEnd, visible]
    nofun
  unfold kept
  dsimp only
  split
  · rw [trimStart_append body]
    simp
  · exact body

theorem argument?_eq_ok {name : String} {piece : Piece} {argument : Fragment}
    (given : piece.argument? name = .ok argument) :
    allBlank piece.raw = false ∧ argument = piece.argument := by
  unfold argument? at given
  split at given
  · cases given
  · rename_i visible
    cases given
    exact ⟨by simpa using visible, rfl⟩

theorem argument?_eq_error {name : String} {piece : Piece} {e : Error}
    (fails : piece.argument? name = .error e) :
    e = piece.start.malformed (.emptyArgument name) := by
  unfold argument? at fails
  split at fails
  · cases fails
    rfl
  · cases fails

/-- The argument of a piece stands behind the blanks that the piece begins with. -/
theorem StandsIn.argument_liesIn {piece : Piece} {whole : Fragment} (stands : piece.StandsIn whole)
    (visible : allBlank piece.raw = false) : piece.argument.LiesIn whole := by
  obtain ⟨back, shape⟩ := piece.kept_isPrefix.trans stands.isPrefix
  have split : piece.start.text =
      piece.kept.takeWhile isBlank ++ (trimStart piece.kept ++ back) := by
    rw [trimStart, ← List.append_assoc, List.takeWhile_append_dropWhile, shape]
  have inside : ∀ c ∈ piece.kept.takeWhile isBlank, isBlank c = true :=
    fun c member => List.mem_takeWhile_imp member
  have reads := reads_blanks inside (trimStart piece.kept ++ back)
  rw [← split] at reads
  have behind : IsRestOf ⟨piece.argument.offset, trimStart piece.kept ++ back⟩ piece.start := by
    refine ⟨_, reads, ?_⟩
    rw [source_map_symbol]
    rfl
  exact ⟨trimStart_kept_ne_nil visible, back, behind.trans stands.start⟩

end Piece

private theorem arguments_liesIn {name : String} {pieces : List Piece} {arguments : List Fragment}
    {whole : Fragment} (stand : ∀ piece ∈ pieces, piece.StandsIn whole)
    (given : pieces.mapM (Piece.argument? name) = .ok arguments) :
    ∀ argument ∈ arguments, argument.LiesIn whole := by
  intro argument member
  obtain ⟨place, found⟩ := List.mem_iff_getElem?.1 member
  obtain ⟨piece, among, one⟩ :=
    exists_getElem?_of_forall₂ (mapM_eq_ok_iff.1 given).flip found
  obtain ⟨visible, rfl⟩ := Piece.argument?_eq_ok one
  exact (stand piece (List.mem_of_getElem? among)).argument_liesIn visible

private theorem exists_piece_of_error {name : String} {pieces : List Piece} {e : Error}
    {whole : Fragment} (stand : ∀ piece ∈ pieces, piece.StandsIn whole)
    (remain : ∀ piece ∈ pieces, piece.start.text ≠ [])
    (fails : pieces.mapM (Piece.argument? name) = .error e) :
    ∃ fault, ∃ here : Fragment, here.LiesIn whole ∧ e = here.malformed fault := by
  obtain ⟨front, piece, back, _, rfl, _, blank⟩ := mapM_eq_error_iff.1 fails
  have member : piece ∈ front ++ piece :: back := by simp
  exact ⟨_, piece.start, (stand piece member).start.liesIn (remain piece member),
    Piece.argument?_eq_error blank⟩

/-- Where the arguments of a list stand, and what stands behind it. -/
theorem readArguments_liesIn {name : String} {opening : Fragment} {offset : Nat} {text : List Char}
    {list : ArgumentList} (read : readArguments name opening offset text = .ok list) :
    (∀ argument ∈ list.arguments, argument.LiesIn ⟨offset, text⟩) ∧
      list.behind.IsRestOf ⟨offset, text⟩ := by
  obtain ⟨closed, given⟩ := readArguments_closed read
  have ending := splitPieces_ending 0 offset text
  rw [closed] at ending
  refine ⟨?_, ending⟩
  unfold Split.arguments at given
  split at given
  · rw [← Except.ok.inj given]
    simp
  · exact arguments_liesIn (splitPieces_standsIn 0 offset text) given

/-- A list that is not read is at fault at its opening parenthesis or behind it. -/
theorem readArguments_eq_error {name : String} {opening : Fragment} {offset : Nat}
    {text : List Char} {e : Error} (fails : readArguments name opening offset text = .error e) :
    ∃ fault, ∃ here : Fragment,
      (here = opening ∨ here.LiesIn ⟨offset, text⟩) ∧ e = here.malformed fault := by
  have stand := splitPieces_standsIn 0 offset text
  have standFinished : ∀ piece ∈ (splitPieces 0 offset text).pieces.dropLast,
      piece.StandsIn ⟨offset, text⟩ :=
    fun piece member => stand piece (List.dropLast_subset _ member)
  obtain ⟨finished, all⟩ := splitPieces_start_ne_nil 0 offset text
  have ending := splitPieces_ending 0 offset text
  unfold readArguments at fails
  dsimp only at fails
  split at fails
  · rename_i behind closed
    have fails := map_eq_error_iff.1 fails
    unfold Split.arguments at fails
    split at fails
    · cases fails
    · obtain ⟨fault, here, lies, same⟩ :=
        exists_piece_of_error stand (all (by rw [closed]; nofun)) fails
      exact ⟨fault, here, .inr lies, same⟩
  · rename_i quote literal unterminated
    rw [unterminated] at ending
    rcases bind_eq_error_iff.1 fails with fails | ⟨_, _, same⟩
    · obtain ⟨fault, here, lies, same⟩ := exists_piece_of_error standFinished finished fails
      exact ⟨fault, here, .inr lies, same⟩
    · cases same
      exact ⟨_, literal, .inr ending, rfl⟩
  · rcases bind_eq_error_iff.1 fails with fails | ⟨_, _, same⟩
    · obtain ⟨fault, here, lies, same⟩ := exists_piece_of_error standFinished finished fails
      exact ⟨fault, here, .inr lies, same⟩
    · cases same
      exact ⟨_, opening, .inl rfl, rfl⟩

end PortableSql.Query
