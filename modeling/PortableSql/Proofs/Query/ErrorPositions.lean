import PortableSql.Proofs.Query.Expansion
import PortableSql.Proofs.Query.Places
import PortableSql.Query.Translate

/-!
# Errors point into the query

Main statement: the position of an error is the number of bytes in front of a place in the query, the
text that the error quotes stands at that place, and where a call has no overload, it is the call from
its name to its closing parenthesis (`error_points_into_query`). The expansion keeps an invariant: the
text that is left, the parentheses that are open and the arguments all have their place in the fragment
that is expanded (`LiesIn`), and so has the fragment that an error is made of.
-/
namespace PortableSql.Query

open Calendar Fragment Text

variable {catalog : Catalog} {limit levels : Nat}

/-- The number of bytes in front of the place that an error points to. -/
def Error.position : Error → Nat
  | .malformed _ position _ | .unknownOverload _ _ position _ | .depthExceeded _ position _ => position

/-- What an error quotes of the query. -/
def Error.snippet : Error → String
  | .malformed _ _ snippet | .unknownOverload _ _ _ snippet | .depthExceeded _ _ snippet => snippet

/-- The tokens of a call: its name, and what stands in its parentheses. -/
def callTokens (name : String) (inner : List Token) : List Token :=
  .word name.toList :: .opening :: (inner ++ [.closing])

/-- An error is made of a fragment in its place: a whole call where the call has no overload. -/
inductive Error.PointsInto (whole : Fragment) : Error → Prop
  | malformed {fault : Fault} {here : Fragment} (lies : here.LiesIn whole) :
      PointsInto whole (here.malformed fault)
  | depthExceeded {limit : Nat} {here : Fragment} (lies : here.LiesIn whole) :
      PointsInto whole (.depthExceeded limit here.offset here.snippet)
  | unknownOverload {name : String} {arity : Nat} {call : Fragment} {inner : List Token}
      (lies : call.LiesIn whole) (balanced : Balanced inner)
      (reads : Reads call.text (callTokens name inner) []) :
      PointsInto whole (.unknownOverload name arity call.offset (String.ofList call.text))

theorem Error.PointsInto.trans {e : Error} {inner outer : Fragment} (points : e.PointsInto inner)
    (lies : inner.LiesIn outer) : e.PointsInto outer := by
  cases points with
  | malformed here => exact .malformed (here.trans lies)
  | depthExceeded here => exact .depthExceeded (here.trans lies)
  | unknownOverload here balanced reads => exact .unknownOverload (here.trans lies) balanced reads

/-! ## Calls -/

theorem intercalate_source (pieces : List (List Token)) :
    List.intercalate [','] (pieces.map source) = source (List.intercalate [.comma] pieces) := by
  cases pieces with
  | nil => rfl
  | cons first later =>
    rw [List.map_cons, intercalate_cons, intercalate_cons, source_append]
    congr 1
    induction later with
    | nil => rfl
    | cons second later ih =>
      rw [List.map_cons, List.flatMap_cons, List.flatMap_cons, source_append, ih]
      rfl

theorem map_raw {pieces : List Piece} {tokens : List (List Token)}
    (holds : List.Forall₂ Piece.Holds pieces tokens) : pieces.map Piece.raw = tokens.map source := by
  induction holds with
  | nil => rfl
  | cons first _ ih => rw [List.map_cons, List.map_cons, first.raw, ih]

/-- A list is written as its pieces are. -/
theorem readArguments_written {name : String} {opening : Fragment} {offset : Nat} {text : List Char}
    {list : ArgumentList} (read : readArguments name opening offset text = .ok list) :
    list.source = (splitPieces 0 offset text).source := by
  unfold readArguments at read
  dsimp only at read
  split at read
  · obtain ⟨_, _, rfl⟩ := map_eq_ok_iff.1 read
    rfl
  · obtain ⟨_, _, fails⟩ := bind_eq_ok_iff.1 read
    cases fails
  · obtain ⟨_, _, fails⟩ := bind_eq_ok_iff.1 read
    cases fails

/-- A list is written as the tokens of its pieces are. -/
theorem readArguments_pieces {name : String} {opening : Fragment} {offset : Nat} {text rest : List Char}
    {list : ArgumentList} {pieces : List (List Token)} (isList : IsList pieces)
    (reads : Reads text (List.intercalate [.comma] pieces ++ [.closing]) rest)
    (read : readArguments name opening offset text = .ok list) :
    list.source = source (List.intercalate [.comma] pieces) := by
  have raws := map_raw (splitPieces_of_reads offset isList reads).2
  rw [readArguments_written read, Split.source, raws, intercalate_source]

/-- What a list is written as: balanced tokens up to the parenthesis that closes it. -/
theorem readArguments_source {name : String} {opening : Fragment} {offset : Nat} {text : List Char}
    {list : ArgumentList} (read : readArguments name opening offset text = .ok list) :
    ∃ inner, Balanced inner ∧ list.source = source inner ∧
      Reads text (inner ++ [.closing]) list.behind.text := by
  obtain ⟨pieces, isList, reads⟩ := exists_pieces_of_closed (readArguments_closed read).1
  exact ⟨_, isList.balanced, readArguments_pieces isList reads read, reads⟩

/-- A call without an overload is quoted from its name to its closing parenthesis. -/
private theorem pointsInto_of_resolveCall {whole here : Fragment} {letters inner : List Char}
    {opening : Fragment} {offset : Nat} {list : ArgumentList} {values : List (List Char)} {e : Error}
    (rest : here.IsRestOf whole) (shape : here.text = letters ++ '(' :: inner)
    (stands : (Token.word letters).StandsBefore (some '('))
    (read : readArguments (String.ofList letters) opening offset inner = .ok list)
    (fails : resolveCall catalog (String.ofList letters) here list values = .error e) :
    e.PointsInto whole := by
  unfold resolveCall at fails
  split at fails
  · cases fails
  · cases fails
    obtain ⟨tokens, balanced, written, reads⟩ := readArguments_source read
    have behind := reads.lossless
    let call : Fragment := ⟨here.offset, letters ++ '(' :: (list.source ++ [')'])⟩
    have same : here.text = call.text ++ list.behind.text := by
      rw [shape, ← behind, source_append, ← written]
      simp [call, Token.text]
    have lies : call.LiesIn whole := by
      refine ⟨by simp [call], list.behind.text, ?_⟩
      rw [← same]
      exact rest
    have readsList : Reads (list.source ++ [')']) (tokens ++ [.closing]) [] := by
      have closed : Reads (source (tokens ++ [.closing]) ++ []) (tokens ++ [.closing]) [] := by
        refine reads.replace_rest ?_
        rw [List.getLast?_concat]
        rintro _ ⟨⟩
        exact Token.closing_standsBefore none
      rw [source_append, ← written, List.append_nil] at closed
      exact closed
    have readsCall : Reads call.text (callTokens (String.ofList letters) tokens) [] := by
      rw [callTokens, String.toList_ofList]
      exact .cons stands (.cons (Token.opening_standsBefore _) readsList)
    have points : Error.PointsInto whole (.unknownOverload (String.ofList letters) values.length
        call.offset (String.ofList call.text)) := .unknownOverload lies balanced readsCall
    simpa [call] using points

/-! ## The expansion -/

/-- A token opens no other group than the one that begins with it. -/
theorem mem_of_openedBehind? {before opened : List Fragment} {here opening : Fragment}
    {token : Token} (still : openedBehind? before here token = some opened)
    (member : opening ∈ opened) : opening = here ∨ opening ∈ before := by
  unfold openedBehind? at still
  split at still
  · cases still
    exact List.mem_cons.1 member
  · cases before with
    | nil => cases still
    | cons first before =>
      cases still
      exact .inr (List.mem_cons_of_mem _ member)
  · cases still
    exact .inr member

theorem isRestOf_opening (offset : Nat) (inner : List Char) :
    IsRestOf ⟨offset + 1, inner⟩ ⟨offset, '(' :: inner⟩ :=
  ⟨[.opening], .cons (Token.opening_standsBefore _) (.nil inner), rfl⟩

/-- Where an expansion fails, the error points into the fragment that is expanded. -/
private theorem pointsInto_of_expandCalls {expandArgument : Fragment → Except Error (List Char)}
    {whole : Fragment} {e : Error}
    (arguments : ∀ argument, argument.text ≠ [] → expandArgument argument = .error e →
      e.PointsInto argument)
    {before : List Fragment} {offset : Nat} {text : List Char}
    (opened : ∀ opening ∈ before, opening.LiesIn whole)
    (rest : IsRestOf ⟨offset, text⟩ whole)
    (fails : expandCalls catalog expandArgument before offset text = .error e) :
    e.PointsInto whole := by
  fun_induction expandCalls catalog expandArgument before offset text with
  | case1 => cases fails
  | case2 offset opening before =>
    cases fails
    exact .malformed (opened opening (by simp))
  | case3 before offset c cs here missing =>
    cases fails
    exact .malformed (rest.liesIn (by simp))
  | case4 before offset c cs token behind found next name call e' fault =>
    cases fails
    obtain ⟨letters, inner, rfl, rfl, known, rfl⟩ := callName?_eq_some_iff.1 call
    have opening := (isRestOf_of_nextToken? found).trans rest
    obtain ⟨fault, place, stands, rfl⟩ := readArguments_eq_error fault
    rcases stands with rfl | lies
    · exact .malformed (opening.liesIn (by simp))
    · exact .malformed (lies.trans_rest ((isRestOf_opening next inner).trans opening))
  | case5 before offset c cs here token behind found next name call list read =>
    rename_i ih
    obtain ⟨letters, inner, rfl, rfl, known, rfl⟩ := callName?_eq_some_iff.1 call
    have opening := (isRestOf_of_nextToken? found).trans rest
    have inside := (isRestOf_opening next inner).trans opening
    obtain ⟨liesEach, restList⟩ := readArguments_liesIn read
    rcases bind_eq_error_iff.1 fails with fails | ⟨values, _, fails⟩
    · obtain ⟨_, argument, _, _, shape, _, fails⟩ := mapM_eq_error_iff.1 fails
      have lies := liesEach argument (by rw [shape]; simp)
      exact (arguments argument lies.1 fails).trans (lies.trans_rest inside)
    · rcases bind_eq_error_iff.1 fails with fails | ⟨sql, _, fails⟩
      · exact pointsInto_of_resolveCall rest (nextToken?_append found).symm
          (nextToken?_standsBefore found) read fails
      · rcases bind_eq_error_iff.1 fails with fails | ⟨_, _, fails⟩
        · exact ih opened (restList.trans inside) fails
        · cases fails
  | case6 before offset c cs token behind found next noCall unopened =>
    cases fails
    exact .malformed (rest.liesIn (by simp))
  | case7 before offset c cs here token behind found next noCall opened' still =>
    rename_i ih
    rcases bind_eq_error_iff.1 fails with fails | ⟨_, _, fails⟩
    · refine ih (fun opening member => ?_) ((isRestOf_of_nextToken? found).trans rest) fails
      rcases mem_of_openedBehind? still member with rfl | member
      · exact rest.liesIn (by simp)
      · exact opened opening member
    · cases fails

/-- At any depth, an error points into the fragment that is expanded. -/
theorem pointsInto_of_expandFragment {fragment : Fragment} {e : Error}
    (remains : fragment.text ≠ []) (fails : expandFragment catalog limit levels fragment = .error e) :
    e.PointsInto fragment := by
  induction levels generalizing fragment with
  | zero =>
    cases fails
    exact .depthExceeded (LiesIn.refl remains)
  | succ levels ih =>
    exact pointsInto_of_expandCalls (fun argument => ih) (by simp) (IsRestOf.refl fragment) fails

/-! ## Errors of a query -/

private theorem byteLength_pos {text : List Char} (remains : text ≠ []) : 0 < byteLength text := by
  obtain ⟨c, rest, rfl⟩ := List.exists_cons_of_ne_nil remains
  have size := c.utf8Size_pos
  rw [byteLength]
  omega

/-- The place of a fragment in a query. -/
private theorem Fragment.LiesIn.place {here : Fragment} {query : List Char}
    (lies : here.LiesIn ⟨0, query⟩) :
    ∃ before back, Reads query before (here.text ++ back) ∧
      query = source before ++ (here.text ++ back) ∧ here.offset = byteLength (source before) ∧
      here.offset < byteLength query := by
  obtain ⟨remains, back, before, reads, place⟩ := lies
  have whole : query = source before ++ (here.text ++ back) := reads.lossless.symm
  have size := byteLength_pos remains
  have behind : here.offset = byteLength (source before) := place.trans (Nat.zero_add _)
  refine ⟨before, back, reads, whole, behind, ?_⟩
  rw [whole, byteLength_append, byteLength_append, behind]
  omega

/-- The beginning of a fragment, as errors quote it, in a query. -/
private theorem Fragment.LiesIn.snippet_place {here : Fragment} {query : List Char}
    (lies : here.LiesIn ⟨0, query⟩) :
    ∃ front back, query = front ++ (here.snippet.toList ++ back) ∧
      here.offset = byteLength front ∧ here.offset < byteLength query ∧ here.snippet ≠ "" ∧
      here.snippet.length ≤ snippetLength := by
  obtain ⟨before, back, _, whole, place, inside⟩ := lies.place
  have quoted : here.snippet.toList = here.text.take snippetLength := String.toList_ofList
  refine ⟨source before, here.text.drop snippetLength ++ back, ?_, place, inside, ?_, ?_⟩
  · rw [quoted, ← List.append_assoc (here.text.take _), List.take_append_drop]
    exact whole
  · intro empty
    rw [empty] at quoted
    have nothing : here.text.take snippetLength = [] := quoted.symm
    rw [List.take_eq_nil_iff] at nothing
    exact nothing.elim (by decide) lies.1
  · rw [← String.length_toList, quoted]
    exact List.length_take_le _ _

/-- An error of a translation has its place in the query: the position counts the bytes in front of
it, and what the error quotes stands there. A call without an overload is quoted as a whole, and
anything else up to a number of characters. -/
theorem error_points_into_query {placeholders : Placeholder.Registry} {maxDepth : Nat}
    {now : DateTime} {query : String} {e : Error}
    (fails : (translate catalog placeholders maxDepth now query).1 = .error e) :
    ∃ front back, query.toList = front ++ (e.snippet.toList ++ back) ∧
      e.position = byteLength front ∧ e.position < byteLength query.toList ∧ e.snippet ≠ "" ∧
      match e with
      | .malformed .. | .depthExceeded .. => e.snippet.length ≤ snippetLength
      | .unknownOverload name .. =>
        ∃ before inner, Balanced inner ∧ source before = front ∧
          e.snippet.toList = source (callTokens name inner) ∧
          Reads query.toList (before ++ callTokens name inner) back := by
  have expands := translate_fst_eq_error_iff.1 fails
  have remains : query.toList ≠ [] := by
    intro empty
    rw [empty, expandQuery, expandFragment, expandCalls_nil] at expands
    cases expands
  have points : e.PointsInto ⟨0, query.toList⟩ := pointsInto_of_expandFragment remains expands
  cases points with
  | malformed lies =>
    obtain ⟨front, back, whole, place, inside, quoted, short⟩ := lies.snippet_place
    exact ⟨front, back, whole, place, inside, quoted, short⟩
  | depthExceeded lies =>
    obtain ⟨front, back, whole, place, inside, quoted, short⟩ := lies.snippet_place
    exact ⟨front, back, whole, place, inside, quoted, short⟩
  | @unknownOverload name arity call inner lies balanced reads =>
    obtain ⟨before, back, readsBefore, whole, place, inside⟩ := lies.place
    have written : source (callTokens name inner) = call.text := reads.source_eq
    have quoted : (String.ofList call.text).toList = call.text := String.toList_ofList
    have readsCall : Reads (source (callTokens name inner) ++ back) (callTokens name inner) back := by
      refine reads.replace_rest ?_
      rw [callTokens, ← List.cons_append, ← List.cons_append, List.getLast?_concat]
      rintro _ ⟨⟩
      exact Token.closing_standsBefore _
    rw [written] at readsCall
    refine ⟨source before, back, ?_, place, inside, ?_, before, inner, balanced, rfl, ?_,
      readsBefore.append readsCall⟩
    · rw [Error.snippet, quoted]
      exact whole
    · intro empty
      exact lies.1 (by rw [← quoted]; exact congrArg String.toList empty)
    · rw [Error.snippet, quoted, written]

/-- The call in the argument of another one is quoted as a whole; the letter in front of the calls takes
two bytes. -/
theorem error_points_into_query_of_nested_call :
    let catalog := Catalog.empty.insert ⟨"f", 1, "[<p1>]", none⟩
    let now : DateTime := ⟨⟨2000, 1, 1, by decide⟩, ⟨0, 0, 0, 0, by decide⟩⟩
    (translate catalog .empty 64 now "ü + f( f(')', b) )").1 = .error (.unknownOverload "f" 2 8 "f(')', b)") ∧
      ∃ front back, "ü + f( f(')', b) )".toList = front ++ ("f(')', b)".toList ++ back) ∧
        8 = byteLength front ∧ 8 < byteLength "ü + f( f(')', b) )".toList ∧ "f(')', b)" ≠ "" ∧
        ∃ before inner, Balanced inner ∧ source before = front ∧
          "f(')', b)".toList = source (callTokens "f" inner) ∧
          Reads "ü + f( f(')', b) )".toList (before ++ callTokens "f" inner) back := by
  intro catalog now
  have fails : (translate catalog .empty 64 now "ü + f( f(')', b) )").1 =
      .error (.unknownOverload "f" 2 8 "f(')', b)") :=
    translate_fst_eq_error_iff.2 (by decide +kernel)
  exact ⟨fails, error_points_into_query fails⟩

end PortableSql.Query
