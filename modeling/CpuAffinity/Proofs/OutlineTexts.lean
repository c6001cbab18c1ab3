import CpuAffinity.Text.Outline
import Mathlib

/-!
# Outlines are known from their text

In the text of an outline, the name ends where the first bracket or blank stands, and each entry
ends at a comma or at the closing bracket. Where names are made of letters and entries have some
text but no comma, nothing in them can be taken for such an end, so the text on one line and the
text as a block each determine the outline. Decimal numbers are entries of this kind.
-/

namespace CpuAffinity

/-- A text that begins with characters of one kind, and goes on with none of them, is known in
both parts. -/
theorem append_inj_of_kind {kind : Char → Bool} {a b x y : List Char}
    (ha : ∀ c ∈ a, kind c = true) (hb : ∀ c ∈ b, kind c = true)
    (hx : ∀ c ∈ x.head?, kind c = false) (hy : ∀ c ∈ y.head?, kind c = false)
    (h : a ++ x = b ++ y) : a = b ∧ x = y := by
  have hfirst {first rest : List Char} (hin : ∀ c ∈ first, kind c = true)
      (hout : ∀ c ∈ rest.head?, kind c = false) : (first ++ rest).takeWhile kind = first := by
    rw [List.takeWhile_append_of_pos hin]
    cases rest with
    | nil => exact List.append_nil first
    | cons c rest =>
      rw [List.takeWhile_cons_of_neg (by simp [hout c rfl]), List.append_nil]
  have hab : a = b := by rw [← hfirst ha hx, ← hfirst hb hy, h]
  rw [hab] at h
  exact ⟨hab, List.append_cancel_left h⟩

/-- Texts up to the first of some mark are known, and so is what stands behind the mark. -/
theorem append_cons_inj_of_notMem {mark : Char} {a b x y : List Char} (ha : mark ∉ a)
    (hb : mark ∉ b) (h : a ++ mark :: x = b ++ mark :: y) : a = b ∧ x = y := by
  have hkind {text : List Char} (htext : mark ∉ text) : ∀ c ∈ text, (c != mark) = true := by
    intro c hc
    rw [bne_iff_ne]
    rintro rfl
    exact htext hc
  obtain ⟨hab, hxy⟩ := append_inj_of_kind (hkind ha) (hkind hb) (by simp) (by simp) h
  exact ⟨hab, (List.cons.inj hxy).2⟩

namespace Decimal

variable {n : ℕ} {c : Char}

/-- A decimal has digits only. -/
theorem isDigit_of_mem (h : c ∈ (toString n).toList) : c.isDigit = true := by
  rw [Nat.toString_eq_ofList_toDigits, String.toList_ofList] at h
  exact Nat.isDigit_of_mem_toDigits (by decide) (by decide) h

/-- A character that is no digit does not stand in a decimal. -/
theorem notMem_of_isDigit (h : c.isDigit = false) : c ∉ (toString n).toList := by
  intro hmem
  rw [isDigit_of_mem hmem] at h
  cases h

/-- A number is known from its decimal. -/
theorem toString_inj {m n : ℕ} : toString m = toString n ↔ m = n := by
  rw [Nat.toString_eq_repr, Nat.toString_eq_repr, Nat.repr_inj]

/-- A number is known from its signed decimal. -/
theorem signed_inj {i j : ℤ} : toString i = toString j ↔ i = j := by
  rw [Int.toString_eq_repr, Int.toString_eq_repr, Int.repr_inj]

/-- A signed decimal is a decimal, or has its sign before one. -/
theorem signed_eq (i : ℤ) :
    toString i = if 0 ≤ i then toString i.toNat else "-" ++ toString (-i).toNat := by
  rw [Int.toString_eq_repr, Int.repr_eq_if, Nat.toString_eq_repr, Nat.toString_eq_repr]

end Decimal

namespace Outline

/-- The rows of a block, joined. -/
theorem rows_eq_join (entries : List String) :
    rows entries = String.join (entries.map fun entry => "    " ++ entry ++ ",\n") := by
  induction entries with
  | nil => rfl
  | cons entry rest ih => rw [rows, ih, List.map_cons, String.join_cons]

/-- A block with entries joins their rows, below the line of the opening bracket. -/
theorem block_eq_join {opening closing : String} {entries : List String}
    (h : entries ≠ []) : block opening closing entries = opening ++ "\n" ++
      String.join (entries.map fun entry => "    " ++ entry ++ ",\n") ++ closing := by
  rw [← rows_eq_join]
  cases entries with
  | nil => exact absurd rfl h
  | cons => rfl

/-- An entry that is told from its neighbours: it has some text, and no comma. -/
structure Separable (entry : String) : Prop where
  nonempty : entry ≠ ""
  comma : ',' ∉ entry.toList

/-- A decimal is told from its neighbours. -/
theorem Separable.decimal (n : ℕ) : Separable (toString n) := by
  refine ⟨?_, Decimal.notMem_of_isDigit (by decide)⟩
  rw [Nat.toString_eq_repr]
  exact Nat.repr_ne_empty

/-- Texts around it without a comma keep an entry separable. -/
theorem Separable.enclose {entry : String} (hentry : Separable entry) {front back : String}
    (hfront : ',' ∉ front.toList) (hback : ',' ∉ back.toList) :
    Separable (front ++ entry ++ back) := by
  refine ⟨fun h => hentry.nonempty ?_, ?_⟩
  · rw [String.append_eq_empty_iff, String.append_eq_empty_iff] at h
    exact h.1.2
  · simp [hfront, hentry.comma, hback]

/-- A text in front without a comma keeps an entry separable. -/
theorem Separable.append {entry : String} (hentry : Separable entry) {front : String}
    (hfront : ',' ∉ front.toList) : Separable (front ++ entry) := by
  simpa using hentry.enclose hfront (show ',' ∉ "".toList by decide)

/-- A signed decimal is told from its neighbours. -/
theorem Separable.signedDecimal (i : ℤ) : Separable (toString i) := by
  rw [Decimal.signed_eq]
  split
  · exact .decimal _
  · exact (Separable.decimal _).append (by decide)

/-- A field is told from its neighbours by its value, where its name has no comma. -/
theorem Separable.fieldEntry {field : String × String} (hvalue : Separable field.2)
    (hname : ',' ∉ field.1.toList) : Separable (fieldEntry field) := by
  apply hvalue.append
  rw [String.toList_append, List.mem_append]
  exact not_or.mpr ⟨hname, by decide⟩

/-- Entries that each end at a comma are known from their text. -/
theorem flatMap_terminated_inj {lead trail : List Char} {entries entries' : List String}
    (h : ∀ e ∈ entries, ',' ∉ e.toList) (h' : ∀ e ∈ entries', ',' ∉ e.toList)
    (htext : entries.flatMap (fun e => lead ++ (e.toList ++ ',' :: trail)) =
      entries'.flatMap fun e => lead ++ (e.toList ++ ',' :: trail)) : entries = entries' := by
  induction entries generalizing entries' with
  | nil =>
    cases entries' with
    | nil => rfl
    | cons e' rest' => simp at htext
  | cons e rest ih =>
    cases entries' with
    | nil => simp at htext
    | cons e' rest' =>
      rw [List.forall_mem_cons] at h h'
      simp only [List.flatMap_cons, List.append_assoc, List.cons_append] at htext
      -- the first comma ends the first entry in both texts
      obtain ⟨hentry, hrest⟩ := append_cons_inj_of_notMem h.1 h'.1 (List.append_cancel_left htext)
      rw [String.toList_inj.mp hentry, ih h.2 h'.2 (List.append_cancel_left hrest)]

/-- The rows of a block each end at a comma. -/
theorem toList_rows (entries : List String) :
    (rows entries).toList = entries.flatMap fun e => "    ".toList ++ (e.toList ++ ',' :: ['\n']) := by
  induction entries with
  | nil => rfl
  | cons e rest ih => simp [rows, ih]

/-- With one more separator behind the last of them, entries on one line each end at a comma. -/
theorem toList_commaSeparated {entries : List String} (h : entries ≠ []) :
    (commaSeparated entries).toList ++ ", ".toList =
      entries.flatMap fun e => [] ++ (e.toList ++ ',' :: [' ']) := by
  induction entries with
  | nil => exact absurd rfl h
  | cons e rest ih =>
    -- the last entry is the one that needs the added separator
    cases rest with
    | nil => simp [commaSeparated]
    | cons e' rest =>
      rw [List.flatMap_cons, ← ih (List.cons_ne_nil e' rest)]
      simp [commaSeparated]

/-- Some entries on one line have some text. -/
theorem commaSeparated_eq_empty {entries : List String} (h : ∀ e ∈ entries, Separable e) :
    commaSeparated entries = "" ↔ entries = [] := by
  cases entries with
  | nil => exact ⟨fun _ => rfl, fun _ => rfl⟩
  | cons e rest =>
    have hfirst : commaSeparated (e :: rest) = e ++ commaSeparated ("" :: rest) := by
      rw [commaSeparated, commaSeparated, ← String.intercalate_cons_append, String.append_empty]
    rw [hfirst, String.append_eq_empty_iff]
    exact ⟨fun hempty => absurd hempty.1 (h e List.mem_cons_self).nonempty, fun hnil => by cases hnil⟩

/-- Separable entries are known from their text on one line. -/
theorem commaSeparated_inj {entries entries' : List String} (h : ∀ e ∈ entries, Separable e)
    (h' : ∀ e ∈ entries', Separable e) (htext : commaSeparated entries = commaSeparated entries') :
    entries = entries' := by
  by_cases hnil : entries = []
  · rw [(commaSeparated_eq_empty h).mpr hnil] at htext
    rw [hnil, (commaSeparated_eq_empty h').mp htext.symm]
  · have hnil' : entries' ≠ [] := by
      rwa [Ne, ← commaSeparated_eq_empty h', ← htext, commaSeparated_eq_empty h]
    apply flatMap_terminated_inj (fun e he => (h e he).comma) fun e he => (h' e he).comma
    rw [← toList_commaSeparated hnil, ← toList_commaSeparated hnil', htext]

/-- A block with entries is longer than the one without. -/
theorem length_block_nil_lt (opening closing e : String) (rest : List String) :
    (block opening closing []).length < (block opening closing (e :: rest)).length := by
  simp only [block, String.length_append, show "\n".length = 1 from rfl]
  omega

/-- Separable entries are known from their block. -/
theorem block_inj {opening closing : String} {entries entries' : List String}
    (h : ∀ e ∈ entries, Separable e) (h' : ∀ e ∈ entries', Separable e)
    (htext : block opening closing entries = block opening closing entries') :
    entries = entries' := by
  cases entries with
  | nil =>
    -- a bracket could begin like a row, so an empty block is told by its length
    cases entries' with
    | nil => rfl
    | cons e' rest' => exact absurd (htext ▸ length_block_nil_lt opening closing e' rest') (lt_irrefl _)
  | cons e rest =>
    cases entries' with
    | nil => exact absurd (htext ▸ length_block_nil_lt opening closing e rest) (lt_irrefl _)
    | cons e' rest' =>
      simp only [block, String.append_left_inj, String.append_right_inj] at htext
      apply flatMap_terminated_inj (fun e he => (h e he).comma) fun e he => (h' e he).comma
      rw [← toList_rows, ← toList_rows, htext]

/-- What stands around the entries of an outline. -/
inductive Frame where
  | bare
  | tuple
  | record
  | set
  | list

namespace Frame

/-- The brackets around entries on one line. -/
def line : Frame → String × String
  | bare => ("", "")
  | tuple => ("(", ")")
  | record => (" \x7b ", " \x7d")
  | set => ("\x7b", "\x7d")
  | list => ("[", "]")

/-- The brackets around a block of entries. -/
def block : Frame → String × String
  | record => (" \x7b", "\x7d")
  | frame => frame.line

/-- The character that a frame begins with, if there is one. -/
def mark : Frame → Option Char
  | bare => none
  | tuple => some '('
  | record => some ' '
  | set => some '\x7b'
  | list => some '['

/-- A frame is known from its first character. -/
theorem mark_injective : Function.Injective mark := by
  intro a b h
  cases a <;> cases b <;> first | rfl | exact absurd h (by decide)

end Frame

/-- The name of an outline; sets and lists have none. -/
def name : Outline → String
  | bare name | tuple name _ | record name _ => name
  | set _ | list _ => ""

/-- The frame of an outline. -/
def frame : Outline → Frame
  | bare _ => .bare
  | tuple _ _ => .tuple
  | record _ _ => .record
  | set _ => .set
  | list _ => .list

/-- The fields of an outline, if it is a record. -/
def fields : Outline → List (String × String)
  | record _ fields => fields
  | _ => []

/-- The entries of an outline, each as its text. -/
def entries : Outline → List String
  | bare _ => []
  | tuple _ entries | set entries | list entries => entries
  | record _ fields => fields.map fieldEntry

/-- An outline that is known from its text. -/
structure Readable (o : Outline) : Prop where
  name : ∀ c ∈ o.name.toList, c.isAlpha = true
  entries : ∀ e ∈ o.entries, Separable e
  fields : ∀ f ∈ o.fields, ':' ∉ f.1.toList

/-- A record's entry is known from its text if the field's name has no colon. -/
theorem fieldEntry_inj {f f' : String × String} (h : ':' ∉ f.1.toList) (h' : ':' ∉ f'.1.toList)
    (htext : fieldEntry f = fieldEntry f') : f = f' := by
  have hlist := congrArg String.toList htext
  simp only [fieldEntry, String.toList_append, List.append_assoc] at hlist
  obtain ⟨hname, hvalue⟩ := append_cons_inj_of_notMem h h' hlist
  exact Prod.ext (String.toList_inj.mp hname) (String.toList_inj.mp (List.cons.inj hvalue).2)

/-- A record's fields are known from their entries. -/
theorem fields_inj {fs fs' : List (String × String)} (h : ∀ f ∈ fs, ':' ∉ f.1.toList)
    (h' : ∀ f ∈ fs', ':' ∉ f.1.toList) (htexts : fs.map fieldEntry = fs'.map fieldEntry) :
    fs = fs' := by
  induction fs generalizing fs' with
  | nil => exact (List.map_eq_nil_iff.mp htexts.symm).symm
  | cons f rest ih =>
    cases fs' with
    | nil => cases htexts
    | cons f' rest' =>
      rw [List.forall_mem_cons] at h h'
      obtain ⟨hfirst, hrest⟩ := List.cons.inj htexts
      rw [fieldEntry_inj h.1 h'.1 hfirst, ih h.2 h'.2 hrest]

variable {a b : Outline}

/-- An outline is known from its frame, its name and its entries. -/
theorem eq_of_parts (ha : a.Readable) (hb : b.Readable) (hframe : a.frame = b.frame)
    (hname : a.name = b.name) (hentries : a.entries = b.entries) : a = b := by
  cases a <;> cases b <;> cases hframe
  case bare.bare => exact congrArg bare hname
  case tuple.tuple => exact congrArg₂ tuple hname hentries
  case record.record => exact congrArg₂ record hname (fields_inj ha.fields hb.fields hentries)
  case set.set => exact congrArg set hentries
  case list.list => exact congrArg list hentries

/-- On one line, an outline is its name and its entries within brackets. -/
theorem oneLine_eq (o : Outline) :
    o.oneLine = o.name ++ (o.frame.line.1 ++ (commaSeparated o.entries ++ o.frame.line.2)) := by
  cases o <;> simp [oneLine, name, frame, Frame.line, entries, commaSeparated, String.append_assoc]

/-- As a block, an outline is its name and the block of its entries. -/
theorem multiLine_eq (o : Outline) :
    o.multiLine = o.name ++ block o.frame.block.1 o.frame.block.2 o.entries := by
  have hname (name opening closing : String) (entries : List String) :
      block (name ++ opening) closing entries = name ++ block opening closing entries := by
    cases entries <;> simp [block, String.append_assoc]
  cases o with
  | bare name => exact (String.append_empty).symm
  | tuple name entries => exact hname name "(" ")" entries
  | record name fields => exact hname name " \x7b" "\x7d" (fields.map fieldEntry)
  | set entries | list entries => exact (String.empty_append).symm

/-- On one line, an outline shows its frame behind the name. -/
theorem head?_line (o : Outline) :
    (o.frame.line.1 ++ (commaSeparated o.entries ++ o.frame.line.2)).toList.head? = o.frame.mark := by
  cases o <;> simp [frame, Frame.line, Frame.mark, entries, commaSeparated]

/-- As a block, an outline shows its frame behind the name. -/
theorem head?_block (o : Outline) :
    (block o.frame.block.1 o.frame.block.2 o.entries).toList.head? = o.frame.mark := by
  have hopening (opening closing : String) (entries : List String) : ∃ rest,
      block opening closing entries = opening ++ rest := by
    cases entries with
    | nil => exact ⟨_, rfl⟩
    | cons e rest =>
      exact ⟨"\n" ++ rows (e :: rest) ++ closing, by simp [block, String.append_assoc]⟩
  cases o with
  | bare => rfl
  | tuple | record | set | list =>
    obtain ⟨rest, hrest⟩ := hopening _ _ _
    rw [hrest]
    simp [frame, Frame.block, Frame.line, Frame.mark]

/-- No mark is a letter. -/
theorem Frame.isAlpha_mark (frame : Frame) : ∀ c ∈ frame.mark, c.isAlpha = false := by
  cases frame <;> simp [mark]

/-- Behind a name of letters, a text that shows the frame tells both. -/
theorem name_frame_inj (ha : a.Readable) (hb : b.Readable) {x y : String}
    (hx : x.toList.head? = a.frame.mark) (hy : y.toList.head? = b.frame.mark)
    (htext : a.name ++ x = b.name ++ y) : a.name = b.name ∧ a.frame = b.frame ∧ x = y := by
  have hlist := congrArg String.toList htext
  rw [String.toList_append, String.toList_append] at hlist
  obtain ⟨hname, hbehind⟩ := append_inj_of_kind ha.name hb.name (hx ▸ a.frame.isAlpha_mark)
    (hy ▸ b.frame.isAlpha_mark) hlist
  refine ⟨String.toList_inj.mp hname, Frame.mark_injective ?_, String.toList_inj.mp hbehind⟩
  rw [← hx, ← hy, hbehind]

/-- An outline is known from its text on one line. -/
theorem oneLine_inj (ha : a.Readable) (hb : b.Readable) : a.oneLine = b.oneLine ↔ a = b := by
  refine ⟨fun htext => ?_, congrArg oneLine⟩
  rw [oneLine_eq, oneLine_eq] at htext
  obtain ⟨hname, hframe, hline⟩ := name_frame_inj ha hb a.head?_line b.head?_line htext
  rw [hframe, String.append_right_inj, String.append_left_inj] at hline
  exact eq_of_parts ha hb hframe hname (commaSeparated_inj ha.entries hb.entries hline)

/-- An outline is known from its text as a block. -/
theorem multiLine_inj (ha : a.Readable) (hb : b.Readable) : a.multiLine = b.multiLine ↔ a = b := by
  refine ⟨fun htext => ?_, congrArg multiLine⟩
  rw [multiLine_eq, multiLine_eq] at htext
  obtain ⟨hname, hframe, hblock⟩ := name_frame_inj ha hb a.head?_block b.head?_block htext
  rw [hframe] at hblock
  exact eq_of_parts ha hb hframe hname (block_inj ha.entries hb.entries hblock)

end Outline

end CpuAffinity
