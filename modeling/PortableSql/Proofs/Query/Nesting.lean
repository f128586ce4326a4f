import Mathlib.Order.Lattice.Nat
import PortableSql.Proofs.Query.ArgumentPlaces
import PortableSql.Proofs.Query.Semantics

/-!
# The bound on nesting

Main statement: a query that is translated under some bound has a greatest nesting of arguments, the
bound is no smaller, and it matters only below that nesting: there the leftmost argument that lies one
call deeper than the bound is reported (`depth_threshold`). Two expansions of a stretch of a query that
treat its arguments alike as far as both succeed differ only in the first argument at which one of them
fails (`exists_arguments_of_expandCalls`); the main statement follows by induction on the depth.
-/
namespace PortableSql.Query

open Calendar Text

variable {catalog : Catalog}

/-! ## The arguments of calls -/

/-- The arguments of the calls among tokens that begin at `offset`, from left to right. Calls inside the
arguments do not count. -/
inductive HasArguments (catalog : Catalog) : List Token → Nat → List Fragment → Prop
  | nil (offset : Nat) : HasArguments catalog [] offset []
  | copy {token : Token} {tokens : List Token} {offset : Nat} {arguments : List Fragment}
      (noCall : ¬ OpensCall catalog token tokens)
      (rest : HasArguments catalog tokens (offset + byteLength token.text) arguments) :
      HasArguments catalog (token :: tokens) offset arguments
  | call {letters : List Char} {pieces : List (List Token)} {tokens : List Token} {offset : Nat}
      {own later : List Fragment} (known : catalog.containsName (String.ofList letters) = true)
      (list : IsList pieces) (holds : HoldsArguments (offset + byteLength letters + 1) pieces own)
      (rest : HasArguments catalog tokens
        (offset + byteLength letters + 1 +
          byteLength (source (List.intercalate [.comma] pieces ++ [.closing]))) later) :
      HasArguments catalog
        (.word letters :: .opening :: (List.intercalate [.comma] pieces ++ .closing :: tokens))
        offset (own ++ later)

/-- A text of a fragment with so many calls around it: the fragment itself, which lies in no call, or
an argument. -/
inductive Nested (catalog : Catalog) : Nat → Fragment → Fragment → Prop
  | self (fragment : Fragment) : Nested catalog 0 fragment fragment
  | argument {depth : Nat} {outer argument inner : Fragment} {tokens : List Token}
      {arguments : List Fragment} (reads : Reads outer.text tokens [])
      (has : HasArguments catalog tokens outer.offset arguments) (member : argument ∈ arguments)
      (deeper : Nested catalog depth argument inner) : Nested catalog (depth + 1) outer inner

/-- The first of the texts with so many calls around them. -/
def IsLeftmost (catalog : Catalog) (depth : Nat) (outer inner : Fragment) : Prop :=
  Nested catalog depth outer inner ∧
    ∀ other, Nested catalog depth outer other → inner.offset ≤ other.offset

private theorem Reads.list {letters : List Char} {pieces : List (List Token)} {tokens : List Token}
    {text : List Char}
    (reads : Reads text
      (.word letters :: .opening :: (List.intercalate [.comma] pieces ++ .closing :: tokens)) []) :
    ∃ inner rest, text = letters ++ '(' :: inner ∧
      Reads inner (List.intercalate [.comma] pieces ++ [.closing]) rest ∧ Reads rest tokens [] := by
  obtain ⟨_, rfl, _, reads⟩ := Reads.cons_iff.1 reads
  obtain ⟨inner, rfl, _, reads⟩ := Reads.cons_iff.1 reads
  rw [List.append_cons] at reads
  exact ⟨inner, _, rfl, reads.of_append⟩

private theorem HasArguments.of_call {letters : List Char} {behind : List Token} {offset : Nat}
    {arguments : List Fragment} (known : catalog.containsName (String.ofList letters) = true)
    (has : HasArguments catalog (.word letters :: .opening :: behind) offset arguments) :
    ∃ pieces tokens own later, behind = List.intercalate [.comma] pieces ++ .closing :: tokens ∧
      IsList pieces ∧ HoldsArguments (offset + byteLength letters + 1) pieces own ∧
      HasArguments catalog tokens (offset + byteLength letters + 1 +
          byteLength (source (List.intercalate [.comma] pieces ++ [.closing]))) later ∧
      arguments = own ++ later := by
  cases has with
  | copy noCall => exact absurd ⟨letters, rfl, rfl, known⟩ noCall
  | call _ list holds rest => exact ⟨_, _, _, _, rfl, list, holds, rest, rfl⟩

/-- The arguments of the calls of a text are determined. -/
theorem HasArguments.unique {tokens : List Token} {offset : Nat} {arguments others : List Fragment}
    {text : List Char} (reads : Reads text tokens []) (has : HasArguments catalog tokens offset arguments)
    (has' : HasArguments catalog tokens offset others) : arguments = others := by
  induction has generalizing text others with
  | nil => cases has'; rfl
  | copy noCall _ ih =>
    obtain ⟨_, _, _, reads⟩ := Reads.cons_iff.1 reads
    cases has' with
    | copy _ rest => exact ih reads rest
    | call known => exact absurd ⟨_, rfl, rfl, known⟩ noCall
  | @call letters pieces tokens offset own later known list holds _ ih =>
    obtain ⟨inner, rest, rfl, readsList, readsRest⟩ := reads.list
    obtain ⟨pieces', tokens', own', later', same, list', holds', has', rfl⟩ := has'.of_call known
    rw [same] at reads
    obtain ⟨_, rest', shape, readsList', readsRest'⟩ := reads.list
    obtain rfl := (List.cons.inj (List.append_cancel_left shape)).2
    -- reading the list is a function, so both descriptions of it give its result
    obtain ⟨found, read, rfl, rfl⟩ := holds.readArguments list readsList "" ⟨0, []⟩
    obtain ⟨found', read', rfl, rfl⟩ := holds'.readArguments list' readsList' "" ⟨0, []⟩
    obtain rfl : found = found' := Except.ok.inj (read.symm.trans read')
    obtain rfl := readsRest.unique readsRest'
    rw [List.append_cancel_right same] at ih
    rw [ih readsRest has']

/-- The arguments of calls stand one behind the other. -/
theorem HasArguments.ordered {tokens : List Token} {offset : Nat} {arguments : List Fragment}
    {text : List Char} (reads : Reads text tokens [])
    (has : HasArguments catalog tokens offset arguments) :
    (∀ argument ∈ arguments,
        offset ≤ argument.offset ∧ argument.stop ≤ offset + byteLength text) ∧
      arguments.Pairwise fun first second => first.stop ≤ second.offset := by
  induction has generalizing text with
  | nil => exact ⟨by simp, .nil⟩
  | copy _ _ ih =>
    obtain ⟨behind, rfl, _, reads⟩ := Reads.cons_iff.1 reads
    obtain ⟨within, ordered⟩ := ih reads
    refine ⟨fun argument member => ?_, ordered⟩
    obtain ⟨low, high⟩ := within argument member
    rw [byteLength_append]
    exact ⟨by omega, by omega⟩
  | @call letters pieces tokens offset own later _ list holds _ ih =>
    obtain ⟨inner, rest, rfl, readsList, readsRest⟩ := reads.list
    have whole := readsList.lossless
    obtain ⟨withinLater, orderedLater⟩ := ih readsRest
    have length : byteLength (letters ++ '(' :: inner) = byteLength letters + 1 +
        (byteLength (source (List.intercalate [.comma] pieces)) + 1 + byteLength rest) := by
      rw [← whole, byteLength_append, source_append, byteLength, byteLength_append,
        byteLength_append, Nat.add_assoc (byteLength letters)]
      rfl
    have closed : byteLength (source (List.intercalate [.comma] pieces ++ [.closing])) =
        byteLength (source (List.intercalate [.comma] pieces)) + 1 := by
      rw [source_append, byteLength_append]
      rfl
    have inList : (∀ argument ∈ own, offset + byteLength letters + 1 ≤ argument.offset ∧
        argument.stop ≤ offset + byteLength letters + 1 +
          byteLength (source (List.intercalate [.comma] pieces))) ∧
        own.Pairwise fun first second => first.stop ≤ second.offset := by
      cases holds with
      | none => exact ⟨by simp, .nil⟩
      | each visible => exact placedArguments_ordered (delimited_of_reads readsList) visible
    obtain ⟨withinOwn, orderedOwn⟩ := inList
    rw [closed] at withinLater
    rw [length]
    refine ⟨fun argument member => ?_, List.pairwise_append.2 ⟨orderedOwn, orderedLater, ?_⟩⟩
    · rcases List.mem_append.1 member with member | member
      · obtain ⟨low, high⟩ := withinOwn argument member
        exact ⟨by omega, by omega⟩
      · obtain ⟨low, high⟩ := withinLater argument member
        exact ⟨by omega, by omega⟩
    · intro first member second member'
      have high := (withinOwn first member).2
      have low := (withinLater second member').1
      omega

theorem Nested.within {depth : Nat} {outer inner : Fragment}
    (nested : Nested catalog depth outer inner) :
    outer.offset ≤ inner.offset ∧ inner.stop ≤ outer.stop := by
  induction nested with
  | self => exact ⟨Nat.le_refl _, Nat.le_refl _⟩
  | argument reads has member _ ih =>
    obtain ⟨low, high⟩ := (has.ordered reads).1 _ member
    exact ⟨Nat.le_trans low ih.1, Nat.le_trans ih.2 high⟩

/-- What lies so many calls deep lies in something that lies less deep. -/
theorem Nested.exists_of_le {depth less : Nat} {outer inner : Fragment}
    (nested : Nested catalog depth outer inner) (le : less ≤ depth) :
    ∃ between, Nested catalog less outer between := by
  induction nested generalizing less with
  | self fragment =>
    obtain rfl := Nat.le_zero.1 le
    exact ⟨fragment, .self fragment⟩
  | @argument depth outer argument inner tokens arguments reads has member deeper ih =>
    cases less with
    | zero => exact ⟨outer, .self outer⟩
    | succ less =>
      obtain ⟨between, nested⟩ := ih (Nat.le_of_succ_le_succ le)
      exact ⟨between, .argument reads has member nested⟩

/-! ## What another bound makes of a stretch -/

variable {expandArgument : Fragment → Except Error (List Char)}

/-- The arguments of a stretch that is expanded. Where its arguments are expanded another way that agrees
with the first as far as it succeeds, the first argument that fails decides, and nothing else does. -/
theorem exists_arguments_of_expandCalls {before : List Fragment} {offset : Nat}
    {text sql : List Char}
    (expands : expandCalls catalog expandArgument before offset text = .ok sql) :
    ∃ tokens arguments, Reads text tokens [] ∧ HasArguments catalog tokens offset arguments ∧
      (∀ argument ∈ arguments, ∃ value, expandArgument argument = .ok value) ∧
      ∀ other : Fragment → Except Error (List Char),
        (∀ argument ∈ arguments, ∀ value,
          other argument = .ok value → expandArgument argument = .ok value) →
        expandCalls catalog other before offset text = (arguments.mapM other).map fun _ => sql := by
  fun_induction expandCalls catalog expandArgument before offset text generalizing sql with
  | case1 offset =>
    cases expands
    exact ⟨[], [], .nil [], .nil offset, by simp, fun other _ => expandCalls_nil⟩
  | case2 => cases expands
  | case3 => cases expands
  | case4 => cases expands
  | case5 before offset c cs here token behind found next name call list read =>
    rename_i ih
    obtain ⟨values, given, expands⟩ := bind_eq_ok_iff.1 expands
    obtain ⟨replaced, resolved, expands⟩ := bind_eq_ok_iff.1 expands
    obtain ⟨after, expandsAfter, same⟩ := bind_eq_ok_iff.1 expands
    cases same
    obtain ⟨tokens, later, readsAfter, hasLater, doneLater, sameLater⟩ := ih expandsAfter
    obtain ⟨letters, inner, rfl, rfl, known, rfl⟩ := callName?_eq_some_iff.1 call
    obtain ⟨pieces, isList, readsList⟩ := exists_pieces_of_closed (readArguments_closed read).1
    obtain ⟨holds, behindList⟩ := readArguments_places isList readsList read
    rw [congrArg Fragment.offset behindList] at hasLater
    have reads : Reads ('(' :: inner)
        (.opening :: (List.intercalate [.comma] pieces ++ .closing :: tokens)) [] := by
      rw [List.append_cons]
      exact .cons (Token.opening_standsBefore _) (readsList.append readsAfter)
    refine ⟨_, list.arguments ++ later, .of_nextToken? found reads,
      .call known isList holds hasLater, fun argument member => ?_, fun other agree => ?_⟩
    · rcases List.mem_append.1 member with member | member
      · exact exists_eq_ok_of_mem given member
      · exact doneLater argument member
    · obtain ⟨agreeOwn, agreeLater⟩ := List.forall_mem_append.1 agree
      rw [expandCalls_call found call read, List.mapM_append, sameLater other agreeLater]
      cases own : list.arguments.mapM other with
      | error e => rfl
      | ok others =>
        -- the own arguments have the values that they had before, so the template gives the same
        have same : others = values :=
          Except.ok.inj ((mapM_eq_ok_of_agree agreeOwn own).symm.trans given)
        have resolves : resolveCall catalog (String.ofList letters) ⟨offset, c :: cs⟩ list others =
            .ok replaced := by rw [same]; exact resolved
        simp only [Except.bind, resolves]
        cases later.mapM other <;> rfl
  | case6 => cases expands
  | case7 before offset c cs here token behind found next noCall opened still =>
    rename_i ih
    obtain ⟨after, expandsAfter, same⟩ := bind_eq_ok_iff.1 expands
    cases same
    obtain ⟨tokens, arguments, reads, has, done, same⟩ := ih expandsAfter
    have opensNone : ¬ OpensCall catalog token tokens := by
      rw [opensCall_iff reads (by simp), noCall]
      simp
    refine ⟨token :: tokens, arguments, .of_nextToken? found reads, .copy opensNone has, done,
      fun other agree => ?_⟩
    rw [expandCalls_copy found noCall still, same other agree]
    cases arguments.mapM other <;> rfl

private theorem Nested.exists_argument {depth : Nat} {outer inner : Fragment} {tokens : List Token}
    {arguments : List Fragment} (reads : Reads outer.text tokens [])
    (has : HasArguments catalog tokens outer.offset arguments)
    (nested : Nested catalog (depth + 1) outer inner) :
    ∃ argument ∈ arguments, Nested catalog depth argument inner := by
  cases nested with
  | argument reads' has' member deeper =>
    obtain rfl := reads.unique reads'
    obtain rfl := has.unique reads has'
    exact ⟨_, member, deeper⟩

/-- Where the arguments in front of one hold nothing so deep, the first that this one holds is the first
of all. -/
private theorem IsLeftmost.of_argument {depth : Nat} {outer argument inner : Fragment}
    {tokens : List Token} {front back : List Fragment} (reads : Reads outer.text tokens [])
    (has : HasArguments catalog tokens outer.offset (front ++ argument :: back))
    (before : ∀ first ∈ front, ¬ ∃ inner, Nested catalog depth first inner)
    (leftmost : IsLeftmost catalog depth argument inner) :
    IsLeftmost catalog (depth + 1) outer inner := by
  obtain ⟨deeper, first⟩ := leftmost
  refine ⟨.argument reads has (by simp) deeper, fun other nested => ?_⟩
  obtain ⟨among, member, nested⟩ := nested.exists_argument reads has
  rcases List.mem_append.1 member with member | member
  · exact absurd ⟨other, nested⟩ (before among member)
  · rcases List.mem_cons.1 member with rfl | member
    · exact first other nested
    · have ordered := (List.pairwise_append.1 (has.ordered reads).2).2.1
      have behind := List.rel_of_pairwise_cons ordered member
      have low := nested.within.1
      have high := deeper.within.2
      have extent : inner.offset ≤ inner.stop := Nat.le_add_right _ _
      omega

/-- A fragment that is expanded under one bound is expanded alike under any other, unless an argument
lies too deep in it: then the first such argument is the error. -/
theorem expandFragment_of_ok {limit levels : Nat} {fragment : Fragment} {sql : List Char}
    (expands : expandFragment catalog limit levels fragment = .ok sql) (bound depth : Nat) :
    ((¬ ∃ inner, Nested catalog depth fragment inner) ∧
        expandFragment catalog bound depth fragment = .ok sql) ∨
      ∃ inner, IsLeftmost catalog depth fragment inner ∧
        expandFragment catalog bound depth fragment =
          .error (.depthExceeded bound inner.offset inner.snippet) := by
  induction depth generalizing levels fragment sql with
  | zero =>
    refine .inr ⟨fragment, ⟨.self fragment, fun other nested => ?_⟩, rfl⟩
    cases nested
    exact Nat.le_refl _
  | succ depth ih =>
    cases levels with
    | zero => cases expands
    | succ levels =>
      obtain ⟨tokens, arguments, reads, has, done, same⟩ := exists_arguments_of_expandCalls expands
      have each : ∀ argument ∈ arguments, ∀ value,
          expandFragment catalog bound depth argument = .ok value →
            expandFragment catalog limit levels argument = .ok value := by
        intro argument member value expands'
        obtain ⟨value', expands⟩ := done argument member
        rcases ih expands with ⟨_, same⟩ | ⟨_, _, fails⟩
        · rw [expands, ← same, expands']
        · rw [expands'] at fails
          cases fails
      have shallow : ∀ argument ∈ arguments, ∀ value,
          expandFragment catalog bound depth argument = .ok value →
            ¬ ∃ inner, Nested catalog depth argument inner := by
        intro argument member value expands'
        rcases ih (each argument member value expands') with ⟨none, _⟩ | ⟨_, _, fails⟩
        · exact none
        · rw [expands'] at fails
          cases fails
      have whole := same (expandFragment catalog bound depth) each
      rw [← expandFragment] at whole
      rw [whole]
      cases own : arguments.mapM (expandFragment catalog bound depth) with
      | ok values =>
        refine .inl ⟨?_, rfl⟩
        rintro ⟨inner, nested⟩
        obtain ⟨argument, member, nested⟩ := nested.exists_argument reads has
        obtain ⟨value, done⟩ := exists_eq_ok_of_mem own member
        exact shallow argument member value done ⟨inner, nested⟩
      | error e =>
        obtain ⟨front, argument, back, values, rfl, before, fails⟩ := mapM_eq_error_iff.1 own
        obtain ⟨value, expands⟩ := done argument (by simp)
        rcases ih expands with ⟨_, same⟩ | ⟨inner, leftmost, same⟩
        · rw [fails] at same
          cases same
        · rw [fails] at same
          refine .inr ⟨inner, .of_argument reads has (fun first member => ?_) leftmost,
            congrArg (Except.map fun _ => sql) same⟩
          obtain ⟨value, done⟩ := exists_eq_ok_of_mem before member
          exact shallow first (List.mem_append_left _ member) value done

/-! ## The threshold -/

/-- A query that is translated under some bound has a greatest nesting of arguments, which the bound
admits. Any bound that admits it gives the same translation, and any smaller one reports the first
argument that lies one call deeper than it allows. -/
theorem depth_threshold {placeholders after : Placeholder.Registry} {maxDepth : Nat} {now : DateTime}
    {query sql : String}
    (translates : translate catalog placeholders maxDepth now query = (.ok sql, after)) :
    ∃ nesting, IsGreatest {depth | ∃ inner, Nested catalog depth ⟨0, query.toList⟩ inner} nesting ∧
      nesting ≤ maxDepth ∧
      (∀ bound, nesting ≤ bound →
        translate catalog placeholders bound now query = (.ok sql, after)) ∧
      ∀ bound, bound < nesting →
        ∃ inner, IsLeftmost catalog (bound + 1) ⟨0, query.toList⟩ inner ∧
          translate catalog placeholders bound now query =
            (.error (.depthExceeded bound inner.offset inner.snippet), placeholders) := by
  obtain ⟨text, expands, result⟩ := translate_ok_iff.1 translates
  let depths : Set Nat := {depth | ∃ inner, Nested catalog depth ⟨0, query.toList⟩ inner}
  have compare := fun bound => expandFragment_of_ok expands bound (bound + 1)
  have shallow : maxDepth + 1 ∉ depths := by
    rcases compare maxDepth with ⟨none, _⟩ | ⟨_, _, fails⟩
    · exact none
    · rw [show expandFragment catalog maxDepth (maxDepth + 1) ⟨0, query.toList⟩ = .ok text from
        expands] at fails
      cases fails
  have bounded : maxDepth ∈ upperBounds depths := by
    rintro depth ⟨inner, nested⟩
    by_contra deep
    exact shallow (nested.exists_of_le (by omega))
  have member : sSup depths ∈ depths := Nat.sSup_mem ⟨0, _, .self _⟩ ⟨maxDepth, bounded⟩
  have greatest : IsGreatest depths (sSup depths) :=
    ⟨member, fun depth => le_csSup ⟨maxDepth, bounded⟩⟩
  refine ⟨sSup depths, greatest, bounded member, fun bound admits => ?_, fun bound less => ?_⟩
  · rcases compare bound with ⟨_, same⟩ | ⟨inner, leftmost, _⟩
    · exact translate_ok_iff.2 ⟨text, same, result⟩
    · have deep := greatest.2 ⟨inner, leftmost.1⟩
      omega
  · obtain ⟨deepest, nested⟩ := member
    rcases compare bound with ⟨none, _⟩ | ⟨inner, leftmost, fails⟩
    · exact absurd (nested.exists_of_le less) none
    · exact ⟨inner, leftmost, translate_of_error fails⟩

/-- Parentheses that open no call and calls without arguments do not count: nothing lies deeper than the
second letter, around which there are three calls. -/
theorem depth_threshold_of_siblings :
    let catalog := ((Catalog.empty.insert ⟨"f", 1, "[<p1>]", none⟩).insert
      ⟨"f", 2, "<p1>+<p2>", none⟩).insert ⟨"g", 0, "now", none⟩
    let now : DateTime := ⟨⟨2000, 1, 1, by decide⟩, ⟨0, 0, 0, 0, by decide⟩⟩
    let query := "f(f(g()), f(f((x))))"
    translate catalog .empty 8 now query = (.ok "[now]+[[(x)]]", .empty) ∧
      ∃ nesting, IsGreatest {depth | ∃ inner, Nested catalog depth ⟨0, query.toList⟩ inner} nesting ∧
        nesting ≤ 8 ∧
        (∀ bound, nesting ≤ bound →
          translate catalog .empty bound now query = (.ok "[now]+[[(x)]]", .empty)) ∧
        ∀ bound, bound < nesting →
          ∃ inner, IsLeftmost catalog (bound + 1) ⟨0, query.toList⟩ inner ∧
            translate catalog .empty bound now query =
              (.error (.depthExceeded bound inner.offset inner.snippet), .empty) := by
  intro catalog now query
  have translates : translate catalog .empty 8 now query = (.ok "[now]+[[(x)]]", .empty) :=
    translate_empty_eq_ok_iff.2 ⟨rfl, eq_ok_of_toOption (by decide +kernel)⟩
  exact ⟨translates, depth_threshold translates⟩

end PortableSql.Query
