import Mathlib.Data.List.Forall2
import Mathlib.Data.List.TakeWhile
import PortableSql.Proofs.Result
import PortableSql.Proofs.Text.Utf8
import PortableSql.Value.Codec

/-!
# Links come back

The text of links has no escapes: a link is written only where its parts hold nothing that the reader takes
for the end of a part or of a line, and the address shows (`Link.not_isFaulty_iff`). So what is written is
read as the same links (`LinkCollection.written_links_come_back`). The reader takes more than the writer
gives, an address of blanks behind a title and a carriage return that ends no line; what was read can be
written exactly where its lines hold neither (`LinkCollection.written_after_read`).
-/
namespace PortableSql

open Text

/-! ## Where a text is cut -/

private theorem takeWhile_of_not_mem {stop : Char} {text : List Char} (absent : stop ∉ text) :
    text.takeWhile (· ≠ stop) = text ∧ text.dropWhile (· ≠ stop) = [] := by
  have before : ∀ c ∈ text, decide (c ≠ stop) = true :=
    fun _ member => decide_eq_true fun same => absent (same ▸ member)
  exact ⟨List.takeWhile_eq_self_iff.2 before, List.dropWhile_eq_nil_iff.2 before⟩

private theorem takeWhile_of_stop {stop : Char} {front : List Char} (absent : stop ∉ front)
    (behind : List Char) :
    (front ++ stop :: behind).takeWhile (· ≠ stop) = front ∧
      (front ++ stop :: behind).dropWhile (· ≠ stop) = stop :: behind := by
  have before : ∀ c ∈ front, decide (c ≠ stop) = true :=
    fun _ member => decide_eq_true fun same => absent (same ▸ member)
  rw [List.takeWhile_append_of_pos before, List.dropWhile_append_of_pos before,
    List.takeWhile_cons_of_neg (by simp), List.dropWhile_cons_of_neg (by simp), List.append_nil]
  exact ⟨rfl, rfl⟩

/-! ## Lines -/

/-- The last line of a text needs no line feed. -/
theorem splitLines_of_not_mem {line : List Char} (noFeed : '\n' ∉ line) (some : line ≠ []) :
    splitLines line = [line] := by
  obtain ⟨taken, dropped⟩ := takeWhile_of_not_mem noFeed
  obtain ⟨c, rest, rfl⟩ := List.exists_cons_of_ne_nil some
  rw [splitLines]
  split
  · rw [taken]
  · rename_i found
    rw [dropped] at found
    cases found

theorem splitLines_of_feed {line : List Char} (noFeed : '\n' ∉ line) (rest : List Char) :
    splitLines (line ++ '\n' :: rest) =
      (if line.getLast? = some '\r' then line.dropLast else line) :: splitLines rest := by
  obtain ⟨taken, dropped⟩ := takeWhile_of_stop noFeed rest
  obtain ⟨c, text, shape⟩ : ∃ c text, line ++ '\n' :: rest = c :: text :=
    List.exists_cons_of_ne_nil (by simp)
  rw [shape] at taken dropped ⊢
  rw [splitLines]
  split
  · rename_i found
    rw [found] at dropped
    cases dropped
  · rename_i found
    rw [found] at dropped
    cases dropped
    rw [taken]

/-- No line holds a line feed. -/
theorem feed_not_mem_splitLines {text line : List Char} (among : line ∈ splitLines text) :
    '\n' ∉ line := by
  have notTaken (text : List Char) : '\n' ∉ text.takeWhile (· ≠ '\n') := by
    intro feed
    simpa using List.mem_takeWhile_imp feed
  fun_induction splitLines text with
  | case1 => cases among
  | case2 c rest line none =>
    rw [List.mem_singleton.1 among]
    exact notTaken (c :: rest)
  | case3 c rest line feed behind found kept ih =>
    rcases List.mem_cons.1 among with rfl | later
    · intro feed
      refine notTaken (c :: rest) ?_
      unfold kept at feed
      split at feed
      · exact List.mem_of_mem_dropLast feed
      · exact feed
    · exact ih later

/-- Lines with a line feed between them are split where they were put together, if none of them is
empty or ends in a carriage return. -/
theorem splitLines_intercalate {lines : List (List Char)}
    (whole : ∀ line ∈ lines, line ≠ [] ∧ '\n' ∉ line ∧ '\r' ∉ line) :
    splitLines (List.intercalate ['\n'] lines) = lines := by
  induction lines with
  | nil => rw [List.intercalate_nil, splitLines]
  | cons line lines ih =>
    obtain ⟨⟨some, noFeed, noReturn⟩, later⟩ := List.forall_mem_cons.1 whole
    cases lines with
    | nil =>
      rw [List.intercalate_singleton]
      exact splitLines_of_not_mem noFeed some
    | cons second lines =>
      have noReturnLast : line.getLast? ≠ .some '\r' :=
        fun last => noReturn (List.mem_of_getLast? last)
      rw [List.intercalate_cons_cons, List.append_assoc, List.singleton_append,
        splitLines_of_feed noFeed, if_neg noReturnLast, ih later]

/-! ## Links on lines -/

namespace Link

/-- A link that a line can hold: it has an address, and no tab beside the one between its parts. -/
structure OnLine (link : Link) : Prop where
  title : ∀ title, link.title = some title → '\t' ∉ title.toList
  url : '\t' ∉ link.url.toList
  some : link.url ≠ ""

private theorem ofLine_of_not_mem {line : List Char} (noTab : '\t' ∉ line) :
    ofLine line = if line = [] then .error .notALink else .ok ⟨none, String.ofList line⟩ := by
  obtain ⟨taken, dropped⟩ := takeWhile_of_not_mem noTab
  rw [ofLine, dropped]
  simp [noTab]

private theorem ofLine_of_tab {title : List Char} (noTab : '\t' ∉ title) (url : List Char) :
    ofLine (title ++ '\t' :: url) =
      if url = [] ∨ '\t' ∈ url then .error .notALink
      else .ok ⟨some (String.ofList title), String.ofList url⟩ := by
  obtain ⟨taken, dropped⟩ := takeWhile_of_stop noTab url
  rw [ofLine, taken, dropped]
  simp

/-- A link that a line holds is read from it. -/
theorem OnLine.ofLine_line {link : Link} (onLine : link.OnLine) : ofLine link.line = .ok link := by
  obtain ⟨title?, url⟩ := link
  obtain ⟨noTabTitle, noTab, some⟩ := onLine
  have someUrl : url.toList ≠ [] := by simpa using some
  cases title? with
  | none =>
    show ofLine url.toList = _
    rw [ofLine_of_not_mem noTab, if_neg someUrl, String.ofList_toList]
  | some title =>
    show ofLine (title.toList ++ '\t' :: url.toList) = _
    rw [ofLine_of_tab (noTabTitle title rfl), if_neg (by simp [someUrl, noTab]), String.ofList_toList,
      String.ofList_toList]

/-- What is read from a line is a link that the line holds. -/
theorem ofLine_eq_ok {line : List Char} {link : Link} (read : ofLine line = .ok link) :
    link.OnLine ∧ link.line = line := by
  by_cases tab : '\t' ∈ line
  · obtain ⟨title, url, rfl, noTab⟩ := List.eq_append_cons_of_mem tab
    rw [ofLine_of_tab noTab] at read
    split at read
    · cases read
    · rename_i legible
      obtain ⟨some, noTabUrl⟩ := not_or.1 legible
      cases read
      refine ⟨⟨fun _ same => ?_, by simpa using noTabUrl, by simpa using some⟩, by simp [Link.line]⟩
      cases same
      simpa using noTab
  · rw [ofLine_of_not_mem tab] at read
    split at read
    · cases read
    · rename_i some
      cases read
      exact ⟨⟨nofun, by simpa using tab, by simpa using some⟩, by simp [Link.line]⟩

theorem mem_line_iff {link : Link} {c : Char} (noTab : c ≠ '\t') :
    c ∈ link.line ↔ (∃ title, link.title = some title ∧ c ∈ title.toList) ∨ c ∈ link.url.toList := by
  obtain ⟨title?, url⟩ := link
  cases title? <;> simp [Link.line, noTab]

theorem mem_line_of_mem_url {link : Link} {c : Char} (member : c ∈ link.url.toList) :
    c ∈ link.line := by
  unfold Link.line
  split
  · exact List.mem_append_right _ (List.mem_cons_of_mem _ member)
  · exact member

/-! ## Links that cannot be written -/

/-- Whether a text holds a tab or a part of a line's end. -/
def HoldsBreak (text : String) : Prop :=
  '\t' ∈ text.toList ∨ '\n' ∈ text.toList ∨ '\r' ∈ text.toList

/-- A link that no text of links holds: a part of it breaks its line, or its address is blank. -/
def IsFaulty (link : Link) : Prop :=
  (∃ title, link.title = some title ∧ HoldsBreak title) ∨ HoldsBreak link.url ∨
    ∀ c ∈ link.url.toList, isBlank c = true

private theorem breaksLine_iff {text : String} :
    breaksLine text.toList = true ↔ HoldsBreak text := by
  simp only [breaksLine, List.any_eq_true, HoldsBreak, Bool.or_eq_true, beq_iff_eq, or_assoc]
  constructor
  · rintro ⟨c, member, rfl | rfl | rfl⟩
    · exact .inl member
    · exact .inr (.inl member)
    · exact .inr (.inr member)
  · rintro (member | member | member)
    · exact ⟨_, member, .inl rfl⟩
    · exact ⟨_, member, .inr (.inl rfl)⟩
    · exact ⟨_, member, .inr (.inr rfl)⟩

/-- The faults that are found are those that there are. -/
theorem fault?_eq_none_iff {link : Link} : link.fault? = none ↔ ¬ link.IsFaulty := by
  have title : ((link.title.map fun title => breaksLine title.toList) = some true) ↔
      ∃ title, link.title = some title ∧ HoldsBreak title := by
    rw [Option.map_eq_some_iff]
    exact exists_congr fun title => and_congr_right fun _ => breaksLine_iff
  have url : allBlank link.url.toList = true ↔ ∀ c ∈ link.url.toList, isBlank c = true := by
    rw [allBlank, List.all_eq_true]
  unfold fault?
  split
  · rename_i broken
    exact iff_of_false nofun fun whole => whole (.inl (title.1 broken))
  · rename_i wholeTitle
    split
    · rename_i broken
      exact iff_of_false nofun fun whole => whole (.inr (.inl (breaksLine_iff.1 broken)))
    · rename_i wholeUrl
      split
      · rename_i blank
        exact iff_of_false nofun fun whole => whole (.inr (.inr (url.1 blank)))
      · rename_i visible
        refine iff_of_true rfl ?_
        rintro (broken | broken | blank)
        · exact wholeTitle (title.2 broken)
        · exact wholeUrl (breaksLine_iff.2 broken)
        · exact visible (url.2 blank)

/-- The links that can be written, seen from their lines. -/
theorem not_isFaulty_iff {link : Link} :
    ¬ link.IsFaulty ↔ link.OnLine ∧ '\n' ∉ link.line ∧ '\r' ∉ link.line ∧
      ∃ c ∈ link.url.toList, isBlank c = false := by
  rw [mem_line_iff (by decide), mem_line_iff (by decide)]
  constructor
  · intro whole
    have visible : ∃ c ∈ link.url.toList, isBlank c = false := by
      by_contra none
      refine whole (.inr (.inr fun c member => ?_))
      by_contra visible
      exact none ⟨c, member, eq_false_of_ne_true visible⟩
    have some : link.url ≠ "" := by
      rintro empty
      obtain ⟨c, member, _⟩ := visible
      rw [empty] at member
      cases member
    refine ⟨⟨fun title same tab => whole (.inl ⟨title, same, .inl tab⟩),
      fun tab => whole (.inr (.inl (.inl tab))), some⟩, ?_, ?_, visible⟩
    · rintro (⟨title, same, feed⟩ | feed)
      · exact whole (.inl ⟨title, same, .inr (.inl feed)⟩)
      · exact whole (.inr (.inl (.inr (.inl feed))))
    · rintro (⟨title, same, cut⟩ | cut)
      · exact whole (.inl ⟨title, same, .inr (.inr cut)⟩)
      · exact whole (.inr (.inl (.inr (.inr cut))))
  · rintro ⟨onLine, noFeed, noReturn, c, member, visible⟩ faulty
    rcases faulty with ⟨title, same, tab | feed | cut⟩ | (tab | feed | cut) | blank
    · exact onLine.title title same tab
    · exact noFeed (.inl ⟨title, same, feed⟩)
    · exact noReturn (.inl ⟨title, same, cut⟩)
    · exact onLine.url tab
    · exact noFeed (.inr feed)
    · exact noReturn (.inr cut)
    · rw [blank c member] at visible
      cases visible

end Link

namespace LinkCollection

/-- The line of the first faulty link is reported. -/
theorem firstError?_eq_some {line : Nat} {links : List Link} {e : LinkError}
    (found : firstError? line links = some e) :
    ∃ front link back, links = front ++ link :: back ∧ (∀ before ∈ front, ¬ before.IsFaulty) ∧
      link.fault? = some e.fault ∧ e.line = line + front.length := by
  induction links generalizing line with
  | nil => cases found
  | cons link links ih =>
    unfold firstError? at found
    split at found
    · rename_i fault faulty
      cases found
      exact ⟨[], link, links, rfl, nofun, faulty, rfl⟩
    · rename_i whole
      obtain ⟨front, faulty, back, rfl, before, fault, place⟩ := ih found
      refine ⟨link :: front, faulty, back, rfl,
        List.forall_mem_cons.2 ⟨Link.fault?_eq_none_iff.1 whole, before⟩, fault, ?_⟩
      rw [place, List.length_cons]
      omega

theorem firstError?_eq_none_iff (line : Nat) {links : List Link} :
    firstError? line links = none ↔ ∀ link ∈ links, ¬ link.IsFaulty := by
  induction links generalizing line with
  | nil => simp [firstError?]
  | cons link links ih =>
    rw [firstError?, List.forall_mem_cons, ← Link.fault?_eq_none_iff]
    cases link.fault? with
    | none => simpa using ih (line + 1)
    | some fault => simp

/-- The links on lines are read one by one, blank lines left out. -/
theorem readLines_eq_ok_iff {line : Nat} {lines : List (List Char)} {links : List Link} :
    readLines line lines = .ok links ↔
      List.Forall₂ (fun text link => Link.ofLine text = .ok link)
        (lines.filter fun text => !allBlank text) links := by
  induction lines generalizing line links with
  | nil =>
    rw [readLines, List.filter_nil, List.forall₂_nil_left_iff, Except.ok.injEq]
    exact eq_comm
  | cons text lines ih =>
    unfold readLines
    split
    · rename_i blank
      rw [List.filter_cons_of_neg (by simp [blank]), ih]
    · rename_i visible
      rw [List.filter_cons_of_pos (by simpa using visible), List.forall₂_cons_left_iff]
      split
      · rename_i fault fails
        rw [fails]
        exact iff_of_false nofun fun ⟨_, _, read, _⟩ => nomatch read
      · rename_i link read
        rw [map_eq_ok_iff, read]
        simp only [ih, Except.ok.injEq]
        constructor
        · rintro ⟨later, each, rfl⟩
          exact ⟨link, later, rfl, each, rfl⟩
        · rintro ⟨_, later, rfl, each, rfl⟩
          exact ⟨later, each, rfl⟩

theorem read_eq_ok_iff {text : String} {collection : LinkCollection} :
    read text = .ok collection ↔
      List.Forall₂ (fun line link => Link.ofLine line = .ok link)
        ((splitLines text.toList).filter fun line => !allBlank line) collection.links := by
  obtain ⟨links⟩ := collection
  rw [read, map_eq_ok_iff]
  simp only [readLines_eq_ok_iff, LinkCollection.mk.injEq, exists_eq_right]

theorem toText_eq_ok_iff {collection : LinkCollection} {text : String} :
    collection.toText = .ok text ↔
      (∀ link ∈ collection.links, ¬ link.IsFaulty) ∧ text = collection.display := by
  rw [← firstError?_eq_none_iff 1, toText]
  cases firstError? 1 collection.links <;> simp [eq_comm]

/-- What is written is read. -/
theorem read_of_toText {collection : LinkCollection} {text : String}
    (written : collection.toText = .ok text) : read text = .ok collection := by
  obtain ⟨whole, rfl⟩ := toText_eq_ok_iff.1 written
  have lines : ∀ line ∈ collection.links.map Link.line,
      (line ≠ [] ∧ '\n' ∉ line ∧ '\r' ∉ line) ∧ (!allBlank line) = true := by
    intro line member
    obtain ⟨link, among, rfl⟩ := List.mem_map.1 member
    obtain ⟨_, noFeed, noReturn, c, inUrl, visible⟩ := Link.not_isFaulty_iff.1 (whole link among)
    have inLine := Link.mem_line_of_mem_url inUrl
    refine ⟨⟨List.ne_nil_of_mem inLine, noFeed, noReturn⟩, ?_⟩
    rw [Bool.not_eq_true', allBlank, List.all_eq_false]
    exact ⟨c, inLine, by simp [visible]⟩
  rw [read_eq_ok_iff, display, String.toList_ofList,
    splitLines_intercalate fun line member => (lines line member).1,
    List.filter_eq_self.2 fun line member => (lines line member).2, List.forall₂_map_left_iff,
    List.forall₂_same]
  intro link member
  exact (Link.not_isFaulty_iff.1 (whole link member)).1.ofLine_line

/-! ## Storing and loading -/

theorem toDatabase_of_toText {collection : LinkCollection} {text : String} (codec : Codec) (encoders : Encoders)
    (compress : Bool) (written : collection.toText = .ok text) :
    codec.toDatabase encoders (.links collection) .linkCollection compress = .ok (.text text, .text) := by
  simp only [Codec.toDatabase, Codec.store, Value.isNull, Codec.storeValue, written,
    Codec.storedType, if_neg Bool.false_ne_true]

theorem toDatabase_of_error {collection : LinkCollection} {e : LinkError} (codec : Codec) (encoders : Encoders)
    (compress : Bool) (fails : collection.toText = .error e) :
    codec.toDatabase encoders (.links collection) .linkCollection compress =
      .error ⟨.toDatabase, .linkCollection, .text, .links e⟩ := by
  simp only [Codec.toDatabase, Codec.store, Value.isNull, Codec.storeValue, fails,
    Codec.storedType, if_neg Bool.false_ne_true]

theorem fromDatabase_of_read {collection : LinkCollection} {text : String} {raw : StoredValue}
    (codec : Codec) (holds : Codec.textOf? raw = some text) (reads : read text = .ok collection) :
    codec.fromDatabase raw .linkCollection = .ok (.links collection) := by
  have there : raw.type ≠ .null := by
    cases raw with
    | null => cases holds
    | _ => exact nofun
  simp only [Codec.fromDatabase, Codec.load, if_neg there, Codec.loadValue, holds, reads]

/-- A collection is written exactly if none of its links is faulty, and the first faulty link is reported
otherwise. What is written is read as the same collection, and so is what is stored, as text and as bytes. -/
theorem written_links_come_back (collection : LinkCollection) :
    ((∃ text, collection.toText = .ok text) ↔ ∀ link ∈ collection.links, ¬ link.IsFaulty) ∧
      (∀ text, collection.toText = .ok text →
        read text = .ok collection ∧
          ∀ (codec : Codec) (encoders : Encoders) (compress : Bool),
            codec.toDatabase encoders (.links collection) .linkCollection compress = .ok (.text text, .text) ∧
              codec.fromDatabase (.text text) .linkCollection = .ok (.links collection) ∧
              codec.fromDatabase (.bytes (encodeUtf8 text)) .linkCollection =
                .ok (.links collection)) ∧
      ∀ e, collection.toText = .error e →
        (∃ front link back, collection.links = front ++ link :: back ∧
            (∀ before ∈ front, ¬ before.IsFaulty) ∧ link.IsFaulty ∧ link.fault? = some e.fault ∧
            e.line = front.length + 1) ∧
          ∀ (codec : Codec) (encoders : Encoders) (compress : Bool),
            codec.toDatabase encoders (.links collection) .linkCollection compress =
              .error ⟨.toDatabase, .linkCollection, .text, .links e⟩ := by
  refine ⟨?_, fun text written => ?_, fun e fails => ?_⟩
  · simp only [toText_eq_ok_iff, exists_and_left, exists_eq, and_true]
  · have reads := read_of_toText written
    exact ⟨reads, fun codec encoders compress => ⟨toDatabase_of_toText codec encoders compress written,
      fromDatabase_of_read codec rfl reads,
      fromDatabase_of_read codec (decodeUtf8?_encodeUtf8 text) reads⟩⟩
  · refine ⟨?_, fun codec encoders compress => toDatabase_of_error codec encoders compress fails⟩
    have found : firstError? 1 collection.links = some e := by
      rw [toText] at fails
      split at fails
      · rename_i first
        rw [first, Except.error.inj fails]
      · cases fails
    obtain ⟨front, link, back, shape, before, fault, place⟩ := firstError?_eq_some found
    have faulty : link.IsFaulty := by
      by_contra whole
      rw [Link.fault?_eq_none_iff.2 whole] at fault
      cases fault
    exact ⟨front, link, back, shape, before, faulty, fault, by omega⟩

/-- A title may be empty or blank, since its line goes on behind the tab. A faulty link is reported with
its place in the collection. -/
theorem written_links_come_back_of_blank_titles :
    let codec : Codec := ⟨.text, .fixedWidth 3⟩
    let collection : LinkCollection := ⟨[⟨some "", "a"⟩, ⟨some "  ", " b "⟩, ⟨none, "c"⟩]⟩
    let broken : LinkCollection := collection.push ⟨some "d\re", "f"⟩
    collection.toText = .ok "\ta\n  \t b \nc" ∧
      codec.fromDatabase (.bytes (encodeUtf8 "\ta\n  \t b \nc")) .linkCollection =
        .ok (.links collection) ∧
      broken.toText = .error ⟨4, .brokenTitle⟩ ∧
      codec.toDatabase .stored (.links broken) .linkCollection true =
        .error ⟨.toDatabase, .linkCollection, .text, .links ⟨4, .brokenTitle⟩⟩ := by
  intro codec collection broken
  have written : collection.toText = .ok "\ta\n  \t b \nc" := by rfl
  have fails : broken.toText = .error ⟨4, .brokenTitle⟩ := by rfl
  have comesBack := (written_links_come_back collection).2.1 _ written
  have refused := (written_links_come_back broken).2.2 _ fails
  exact ⟨written, (comesBack.2 codec .stored true).2.2, fails, refused.2 codec .stored true⟩

/-! ## Writing what was read -/

/-- A line whose link cannot be written: it keeps a carriage return, or what stands behind a tab in it is
blank. -/
def IsUnwritable (line : List Char) : Prop :=
  '\r' ∈ line ∨ ∃ title url, line = title ++ '\t' :: url ∧ ∀ c ∈ url, isBlank c = true

/-- A line that is not blank has a blank address behind its tab only. -/
private theorem blank_url_iff {link : Link} (onLine : link.OnLine)
    (visible : allBlank link.line = false) :
    (∀ c ∈ link.url.toList, isBlank c = true) ↔
      ∃ title url, link.line = title ++ '\t' :: url ∧ ∀ c ∈ url, isBlank c = true := by
  obtain ⟨title?, url⟩ := link
  cases title? with
  | none =>
    refine iff_of_false (fun blank => ?_) ?_
    · have blankLine : allBlank url.toList = true := List.all_eq_true.2 blank
      rw [show allBlank url.toList = false from visible] at blankLine
      cases blankLine
    · rintro ⟨title, back, shape, _⟩
      have whole : url.toList = title ++ '\t' :: back := shape
      exact onLine.url (by rw [whole]; simp)
  | some title =>
    constructor
    · intro blank
      exact ⟨title.toList, url.toList, rfl, blank⟩
    · rintro ⟨front, back, shape, blank⟩
      -- the line has one tab, so it is cut in one way
      have whole : title.toList ++ '\t' :: url.toList = front ++ '\t' :: back := shape
      have tabs := congrArg (List.count '\t') whole
      rw [List.count_append, List.count_append, List.count_cons_self, List.count_cons_self,
        List.count_eq_zero_of_not_mem (onLine.title title rfl),
        List.count_eq_zero_of_not_mem onLine.url] at tabs
      have noTab : '\t' ∉ front := List.count_eq_zero.1 (by omega)
      have behind := congrArg (List.dropWhile (· ≠ '\t')) whole
      rw [(takeWhile_of_stop (onLine.title title rfl) _).2, (takeWhile_of_stop noTab _).2] at behind
      rw [(List.cons.inj behind).2]
      exact blank

theorem isFaulty_iff_isUnwritable {line : List Char} {link : Link} (visible : allBlank line = false)
    (noFeed : '\n' ∉ line) (reads : Link.ofLine line = .ok link) :
    link.IsFaulty ↔ IsUnwritable line := by
  obtain ⟨onLine, rfl⟩ := Link.ofLine_eq_ok reads
  have address : (∃ c ∈ link.url.toList, isBlank c = false) ↔
      ¬ ∀ c ∈ link.url.toList, isBlank c = true := by simp
  rw [← not_iff_not, Link.not_isFaulty_iff, IsUnwritable, not_or, address,
    blank_url_iff onLine visible]
  exact ⟨fun ⟨_, _, rest⟩ => rest, fun rest => ⟨onLine, noFeed, rest⟩⟩

/-- A collection that was read can be written exactly if its text keeps no carriage return and no blank
address on a line that is not blank; then the text that is written holds the same collection. -/
theorem written_after_read {text : String} {collection : LinkCollection}
    (reads : read text = .ok collection) :
    ((∃ written, collection.toText = .ok written) ↔
        ∀ line ∈ splitLines text.toList, IsUnwritable line → ∀ c ∈ line, isBlank c = true) ∧
      (∀ written, collection.toText = .ok written → read written = .ok collection) ∧
      ∀ (codec : Codec) (encoders : Encoders) (compress : Bool) (raw : StoredValue),
        Codec.textOf? raw = some text →
        codec.fromDatabase raw .linkCollection = .ok (.links collection) ∧
          ((∃ stored, codec.toDatabase encoders (.links collection) .linkCollection compress = .ok stored) ↔
            ∃ written, collection.toText = .ok written) ∧
          ∀ stored column,
            codec.toDatabase encoders (.links collection) .linkCollection compress = .ok (stored, column) →
              codec.fromDatabase stored .linkCollection = .ok (.links collection) := by
  refine ⟨?_, fun written => read_of_toText, fun codec encoders compress raw holds =>
    ⟨fromDatabase_of_read codec holds reads, ?_⟩⟩
  · have each := read_eq_ok_iff.1 reads
    have lines : (∀ line ∈ (splitLines text.toList).filter fun line => !allBlank line,
        ¬ IsUnwritable line) ↔ ∀ link ∈ collection.links, ¬ link.IsFaulty := by
      refine forall_mem_iff_of_forall₂ each fun line member link reads => not_congr ?_
      obtain ⟨among, visible⟩ := List.mem_filter.1 member
      exact (isFaulty_iff_isUnwritable (by simpa using visible) (feed_not_mem_splitLines among)
        reads).symm
    simp only [toText_eq_ok_iff, exists_and_left, exists_eq, and_true]
    rw [← lines]
    constructor
    · intro writable line member unwritable
      by_contra visible
      refine writable line (List.mem_filter.2 ⟨member, ?_⟩) unwritable
      simpa [allBlank] using visible
    · intro writable line member unwritable
      obtain ⟨among, visible⟩ := List.mem_filter.1 member
      have blank : allBlank line = true := List.all_eq_true.2 (writable line among unwritable)
      rw [blank] at visible
      cases visible
  · cases outcome : collection.toText with
    | ok written =>
      have stores := toDatabase_of_toText codec encoders compress outcome
      refine ⟨iff_of_true ⟨_, stores⟩ ⟨_, rfl⟩, fun stored column again => ?_⟩
      rw [stores] at again
      cases again
      exact fromDatabase_of_read codec rfl (read_of_toText outcome)
    | error e =>
      rw [toDatabase_of_error codec encoders compress outcome]
      refine ⟨iff_of_false ?_ ?_, fun stored column again => ?_⟩
      · rintro ⟨stored, same⟩
        cases same
      · rintro ⟨written, same⟩
        cases same
      · cases again

/-- Blank lines and the returns at the ends of lines are gone from the text that is written. -/
theorem written_after_read_of_returns :
    let codec : Codec := ⟨.native, .unbounded⟩
    let collection : LinkCollection := ⟨[⟨some "T", "a"⟩, ⟨none, "b"⟩]⟩
    read "T\ta\r\n \t\nb" = .ok collection ∧ collection.toText = .ok "T\ta\nb" ∧
      read "T\ta\nb" = .ok collection ∧
      codec.fromDatabase (.text "T\ta\r\n \t\nb") .linkCollection = .ok (.links collection) ∧
      ∃ stored, codec.toDatabase .stored (.links collection) .linkCollection false = .ok stored := by
  intro codec collection
  have reads : read "T\ta\r\n \t\nb" = .ok collection := eq_ok_of_toOption (by decide +kernel)
  have written : collection.toText = .ok "T\ta\nb" := by rfl
  obtain ⟨_, again, stores⟩ := written_after_read reads
  obtain ⟨loads, storable, _⟩ := stores codec .stored false (.text "T\ta\r\n \t\nb") rfl
  exact ⟨reads, written, again _ written, loads, storable.2 ⟨_, written⟩⟩

/-- An address of blanks is read behind a title, and so is a carriage return that ends no line; neither is
written. -/
theorem blank_address_not_written :
    let codec : Codec := ⟨.native, .unbounded⟩
    let blank : LinkCollection := ⟨[⟨some "T", " "⟩]⟩
    let broken : LinkCollection := ⟨[⟨none, "a\r"⟩]⟩
    read "T\t " = .ok blank ∧ blank.toText = .error ⟨1, .blankUrl⟩ ∧
      read "a\r" = .ok broken ∧ broken.toText = .error ⟨1, .brokenUrl⟩ ∧
      codec.fromDatabase (.text "T\t ") .linkCollection = .ok (.links blank) ∧
      codec.toDatabase .stored (.links blank) .linkCollection false =
        .error ⟨.toDatabase, .linkCollection, .text, .links ⟨1, .blankUrl⟩⟩ := by
  intro codec blank broken
  have readsBlank : read "T\t " = .ok blank := eq_ok_of_toOption (by decide +kernel)
  have readsBroken : read "a\r" = .ok broken := eq_ok_of_toOption (by decide +kernel)
  have fails : blank.toText = .error ⟨1, .blankUrl⟩ := by rfl
  have failsBroken : broken.toText = .error ⟨1, .brokenUrl⟩ := by rfl
  exact ⟨readsBlank, fails, readsBroken, failsBroken, fromDatabase_of_read codec rfl readsBlank,
    toDatabase_of_error codec .stored false fails⟩

end LinkCollection

end PortableSql
