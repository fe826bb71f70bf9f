import SplitEditor.Proofs.Highlight.Brackets
import SplitEditor.Proofs.Highlight.Pieces
import SplitEditor.Wasm.Listing
import SplitEditor.Wasm.Writer

/-! The listing of a module is read back as what it was written from: brackets in turn, keywords,
numbers and white space, summaries that are comments, and the names of the module as its strings. -/

namespace SplitEditor

open Outline Wasm

namespace Wasm

def Part.names : Part → List (List Char)
  | .entries .imports count body =>
    ((Reader.all? (Reader.many Reader.importEntry count) body).getD []).flatMap fun entry =>
      [entry.module, entry.name]
  | .entries .exports count body =>
    ((Reader.all? (Reader.many Reader.exportEntry count) body).getD []).map (·.name)
  | _ => []

namespace ListingLine

def names : ListingLine → List (List Char)
  | imported entry => [entry.module, entry.name]
  | exported entry => [entry.name]
  | _ => []

structure Sound (line : ListingLine) : Prop where
  names : ∀ name ∈ line.names, '"' ∉ name ∧ '\\' ∉ name
  label : ∀ label count, line = summary label count → '\n' ∉ label.toList

theorem flatMap_names_of_ofPart? {part : Part} {lines : List ListingLine}
    (h : ofPart? part = some lines) : lines.flatMap names = part.names := by
  cases part with
  | entries kind count body =>
    cases kind with
    | imports =>
      obtain ⟨entries, hentries, rfl⟩ := Option.map_eq_some_iff.1 h
      rw [Part.names, hentries, Option.getD_some, List.flatMap_map]
      rfl
    | exports =>
      obtain ⟨entries, hentries, rfl⟩ := Option.map_eq_some_iff.1 h
      rw [Part.names, hentries, Option.getD_some, List.flatMap_map]
      exact List.map_eq_flatMap.symm
    | memories =>
      obtain ⟨types, -, rfl⟩ := Option.map_eq_some_iff.1 h
      rw [List.flatMap_map]
      exact List.flatMap_eq_nil_iff.2 fun _ _ => rfl
    | _ =>
      obtain rfl := Option.some.inj h
      rfl
  | _ =>
    obtain rfl := Option.some.inj h
    rfl

theorem label_of_ofPart? {part : Part} {lines : List ListingLine} (h : ofPart? part = some lines)
    {label : String} {count : Nat} (hline : summary label count ∈ lines) :
    '\n' ∉ label.toList := by
  cases part with
  | entries kind count body =>
    cases kind with
    | imports | memories | exports =>
      obtain ⟨entries, -, rfl⟩ := Option.map_eq_some_iff.1 h
      obtain ⟨entry, -, hentry⟩ := List.mem_map.1 hline
      cases hentry
    | tables | elements | tags =>
      obtain rfl := Option.some.inj h
      cases hline
    | types | functions | globals | data =>
      obtain rfl := Option.some.inj h
      cases List.mem_singleton.1 hline
      decide
  | start function =>
    obtain rfl := Option.some.inj h
    cases List.mem_singleton.1 hline
  | _ =>
    obtain rfl := Option.some.inj h
    cases hline

def space : Piece := .blank [' ']

def importPieces : ImportType → List Piece
  | .func type => [.opening, .keyword "func", space, .opening, .keyword "type", space, .number type,
      .closing, .closing]
  | .table _ => [.opening, .keyword "table", .closing]
  | .memory type => [.opening, .keyword "memory", space, .number type.limits.least, .closing]
  | .global _ => [.opening, .keyword "global", .closing]
  | .tag _ => [.opening, .keyword "tag", .closing]

/-- What the line is put together from. -/
def pieces : ListingLine → List Piece
  | summary label count => [.comment (' ' :: (label.toList ++ ": ".toList ++ number count))]
  | imported entry =>
    [.opening, .keyword "import", space, .quoted entry.module, space, .quoted entry.name, space] ++
      importPieces entry.type ++ [.closing]
  | memory limits =>
    [.opening, .keyword "memory", space, .number limits.least] ++
      (match limits.most with
      | some most => [space, .number most]
      | none => []) ++ [.closing]
  | exported entry =>
    [.opening, .keyword "export", space, .quoted entry.name, space, .opening,
      .keyword entry.kind.keyword, space, .number entry.index, .closing, .closing]
  | start function => [.opening, .keyword "start", space, .number function, .closing]

theorem text_importPieces (type : ImportType) :
    (importPieces type).flatMap Piece.text = importText type := by
  cases type <;> rfl

theorem text_pieces (line : ListingLine) : line.pieces.flatMap Piece.text = line.text := by
  cases line with
  | summary label count =>
    show _ = ";; ".toList ++ label.toList ++ ": ".toList ++ number count
    simp [pieces, Piece.text]
  | imported entry =>
    show _ = "(import ".toList ++ quoted entry.module ++ ' ' :: quoted entry.name ++
      ' ' :: importText entry.type ++ [')']
    simp [pieces, Piece.text, text_importPieces, quoted, space]
  | memory limits =>
    show _ = "(memory ".toList ++ number limits.least ++
      (match limits.most with
      | some most => ' ' :: number most
      | none => []) ++ [')']
    cases h : limits.most <;> simp [pieces, Piece.text, number, h, space]
  | exported entry =>
    show _ = "(export ".toList ++ quoted entry.name ++ " (".toList ++
      entry.kind.keyword.toList ++ ' ' :: number entry.index ++ "))".toList
    simp [pieces, Piece.text, number, quoted, space]
  | start function => rfl

theorem balanced_pieces (line : ListingLine) :
    Brackets.Balanced (line.pieces.flatMap Piece.brackets) := by
  cases line with
  | summary | exported | start => rfl
  | imported entry =>
    rw [pieces]
    cases entry.type <;> rfl
  | memory limits =>
    rw [pieces]
    cases limits.most <;> rfl

theorem quotations_importPieces (type : ImportType) :
    (importPieces type).flatMap Piece.quotations = [] := by
  cases type <;> rfl

theorem quotations_pieces (line : ListingLine) :
    line.pieces.flatMap Piece.quotations = line.names.filter (· ≠ []) := by
  cases line with
  | summary | start => rfl
  | imported entry =>
    rw [names, ← List.singleton_append, List.filter_append]
    simp only [pieces, space, Piece.quotations, List.flatMap_append, List.flatMap_cons,
      List.flatMap_nil, quotations_importPieces, List.nil_append, List.append_nil]
  | memory limits =>
    rw [pieces]
    cases limits.most <;> rfl
  | exported entry =>
    simp only [pieces, space, names, Piece.quotations, List.flatMap_cons, List.flatMap_nil,
      List.nil_append, List.append_nil]

theorem stops_isBlank_text (line : ListingLine) (rest : List Char) :
    Pattern.Stops Pattern.isBlank (line.text ++ rest) := by
  rw [← text_pieces]
  cases line <;> exact Pattern.stops_cons.2 rfl

theorem readable_pieces {line : ListingLine} (h : line.Sound) {after : List Piece}
    {rest : List Char} (hbreak : after.flatMap Piece.text = '\n' :: rest)
    (hafter : Piece.Readable after) : Piece.Readable (line.pieces ++ after) := by
  cases line with
  | summary label count =>
    have hlabel : '\n' ∉ label.toList := h.label label count rfl
    have hcount : '\n' ∉ Nat.toDigits 10 count := Piece.not_mem_toDigits (by decide) count
    simp [pieces, number, hlabel, hcount, hbreak, hafter]
  | imported entry =>
    have hmodule := h.names entry.module (by simp [names])
    have hname := h.names entry.name (by simp [names])
    cases htype : entry.type <;>
      simp +decide [pieces, importPieces, htype, space, hmodule, hname, hbreak, hafter]
  | memory limits =>
    cases hmost : limits.most <;> simp +decide [pieces, hmost, space, hbreak, hafter]
  | exported entry =>
    have hname := h.names entry.name (by simp [names])
    cases hkind : entry.kind <;>
      simp +decide [pieces, ExternKind.keyword, hkind, space, hname, hbreak, hafter]
  | start function => simp +decide [pieces, space, hbreak, hafter]

end ListingLine

namespace Listing
open ListingLine

theorem names_of_mapM_ofPart? {parts : List Part} {lines : List (List ListingLine)}
    (h : parts.mapM ofPart? = some lines) :
    lines.flatten.flatMap names = parts.flatMap Part.names ∧
      ∀ label count, summary label count ∈ lines.flatten → '\n' ∉ label.toList := by
  induction parts generalizing lines with
  | nil =>
    obtain rfl := Option.some.inj h
    exact ⟨rfl, by simp⟩
  | cons part parts ih =>
    rw [List.mapM_cons] at h
    obtain ⟨first, hfirst, h⟩ := Option.bind_eq_some_iff.1 h
    obtain ⟨others, hothers, h⟩ := Option.bind_eq_some_iff.1 h
    obtain rfl := Option.some.inj h
    obtain ⟨hnames, hlabels⟩ := ih hothers
    rw [List.flatten_cons]
    constructor
    · rw [List.flatMap_append, List.flatMap_cons, flatMap_names_of_ofPart? hfirst, hnames]
    · intro label count hline
      rcases List.mem_append.1 hline with hline | hline
      · exact label_of_ofPart? hfirst hline
      · exact hlabels label count hline

def indent : Piece := .blank "\n  ".toList

def indented (lines : List ListingLine) : List Piece :=
  lines.flatMap fun line => indent :: line.pieces

def ending : List Piece := [.blank ['\n'], .closing]

def pieces : List ListingLine → List Piece
  | [] => [.opening, .keyword "module", .closing]
  | lines => .opening :: .keyword "module" :: (indented lines ++ ending)

theorem pieces_of_ne_nil {lines : List ListingLine} (h : lines ≠ []) :
    pieces lines = .opening :: .keyword "module" :: (indented lines ++ ending) := by
  cases lines with
  | nil => exact absurd rfl h
  | cons => rfl

def front (before : List ListingLine) : List Char :=
  "(module\n".toList ++ before.flatMap (fun line => "  ".toList ++ line.text ++ ['\n']) ++
    "  ".toList

theorem text_indented (lines : List ListingLine) (rest : List Char) :
    (indented lines).flatMap Piece.text ++ '\n' :: rest =
      '\n' :: (lines.flatMap (fun line => "  ".toList ++ line.text ++ ['\n']) ++ rest) := by
  induction lines with
  | nil => rfl
  | cons line lines ih =>
    rw [indented] at ih ⊢
    rw [List.flatMap_cons, List.flatMap_append, List.append_assoc, ih, List.flatMap_cons,
      List.flatMap_cons, ListingLine.text_pieces]
    simp [indent]

theorem text_module (lines : List ListingLine) (rest : List Char) :
    '(' :: ("module".toList ++ ((indented lines).flatMap Piece.text ++ '\n' :: rest)) =
      "(module\n".toList ++ lines.flatMap (fun line => "  ".toList ++ line.text ++ ['\n']) ++
        rest := by
  have hmodule : "(module\n".toList = '(' :: ("module".toList ++ ['\n']) := rfl
  rw [text_indented, hmodule]
  simp only [List.cons_append, List.append_assoc, List.nil_append]

theorem text_pieces (lines : List ListingLine) :
    (pieces lines).flatMap Piece.text = text lines := by
  cases lines with
  | nil => rfl
  | cons line lines =>
    show '(' :: ("module".toList ++ (indented (line :: lines) ++ ending).flatMap Piece.text) = _
    rw [List.flatMap_append]
    exact text_module (line :: lines) [')']

theorem exists_text_behind (lines : List ListingLine) :
    ∃ rest, (indented lines ++ ending).flatMap Piece.text = '\n' :: rest := by
  cases lines <;> exact ⟨_, rfl⟩

theorem readable_indented {lines : List ListingLine} (h : ∀ line ∈ lines, line.Sound) :
    Piece.Readable (indented lines ++ ending) := by
  induction lines with
  | nil => simp +decide [indented, ending]
  | cons line lines ih =>
    obtain ⟨hline, hlines⟩ := List.forall_mem_cons.1 h
    obtain ⟨rest, hrest⟩ := exists_text_behind lines
    have hcons : indented (line :: lines) = indent :: (line.pieces ++ indented lines) :=
      List.flatMap_cons
    rw [hcons, List.cons_append, List.append_assoc]
    refine ⟨by simp +decide [indent], ?_, readable_pieces hline hrest (ih hlines)⟩
    rw [List.flatMap_append, ListingLine.text_pieces]
    exact stops_isBlank_text line _

theorem readable_listing {lines : List ListingLine} (h : ∀ line ∈ lines, line.Sound) :
    Piece.Readable (pieces lines) := by
  cases lines with
  | nil => simp +decide [pieces]
  | cons line lines =>
    obtain ⟨rest, hrest⟩ := exists_text_behind (line :: lines)
    have hends : Pattern.Stops continues
        ((indented (line :: lines) ++ ending).flatMap Piece.text) := by
      rw [hrest]
      exact Pattern.stops_cons.2 rfl
    exact ⟨trivial, trivial, by simp, hends, readable_indented h⟩

theorem enclosed_pieces (lines : List ListingLine) :
    Brackets.Enclosed ((pieces lines).flatMap Piece.brackets) := by
  have hlines : Brackets.Balanced ((indented lines).flatMap Piece.brackets) := by
    rw [indented, List.flatMap_assoc]
    exact Brackets.balanced_flatMap fun line _ => line.balanced_pieces
  by_cases h : lines = []
  · rw [h]
    exact Brackets.balanced_nil.enclosed
  · rw [pieces_of_ne_nil h, List.flatMap_cons, List.flatMap_cons, List.flatMap_append]
    exact hlines.enclosed

theorem quotations_listing (lines : List ListingLine) :
    (pieces lines).flatMap Piece.quotations = (lines.flatMap names).filter (· ≠ []) := by
  have hlines : (indented lines).flatMap Piece.quotations =
      (lines.flatMap names).filter (· ≠ []) := by
    rw [indented, List.flatMap_assoc, List.filter_flatMap]
    exact congrArg (lines.flatMap ·) (funext fun line => line.quotations_pieces)
  by_cases h : lines = []
  · rw [h]
    rfl
  · rw [pieces_of_ne_nil h, List.flatMap_cons, List.flatMap_cons, List.flatMap_append, hlines]
    exact List.append_nil _

theorem lexemes_text {lines : List ListingLine} (h : ∀ line ∈ lines, line.Sound) :
    grammar.lexemes (.code ()) (text lines) = (pieces lines).flatMap Piece.lexemes := by
  rw [← text_pieces, Piece.read_all (readable_listing h)]

theorem pieces_append (before : List ListingLine) (line : ListingLine)
    (after : List ListingLine) : pieces (before ++ line :: after) =
      (.opening :: .keyword "module" :: (indented before ++ [indent])) ++
        (line.pieces ++ (indented after ++ ending)) := by
  rw [pieces_of_ne_nil (by simp), indented, indented, indented, List.flatMap_append,
    List.flatMap_cons]
  simp only [List.cons_append, List.append_assoc, List.nil_append]

theorem text_front (before : List ListingLine) :
    (Piece.opening :: .keyword "module" :: (indented before ++ [indent])).flatMap Piece.text =
      front before := by
  show '(' :: ("module".toList ++ (indented before ++ [indent]).flatMap Piece.text) = _
  rw [List.flatMap_append]
  exact text_module before "  ".toList

/-- What reading a module's listing gives. -/
structure Rereads (parts : List Part) (lines : List ListingLine) (text : List Char)
    (tokens : List SplitEditor.Token) : Prop where
  kinds : ∀ t ∈ tokens, t.kind ∈
    [.bracket, .keyword, .comment, .number, .stringQuote, .string, TokenKind.white]
  brackets : Brackets.Enclosed (SplitEditor.Token.textsOf .bracket tokens).flatten
  /-- A line that counts entries is a comment up to its end. -/
  summaries : ∀ before label count after, lines = before ++ summary label count :: after →
    (∃ rest, text = front before ++ ((summary label count).text ++ '\n' :: rest)) ∧
      ⟨.comment, TokenKind.comment.scope, (summary label count).text,
        Utf8.byteLength (front before)⟩ ∈ tokens
  strings : SplitEditor.Token.textsOf .string tokens =
    (parts.flatMap Part.names).filter (· ≠ [])

section Rereads
variable {lines before after : List ListingLine} {label : String} {count : Nat}

theorem comment_of_summary (hlines : ∀ line ∈ lines, line.Sound)
    (h : lines = before ++ summary label count :: after) :
    ⟨.comment, TokenKind.comment.scope, (summary label count).text,
      Utf8.byteLength (front before)⟩ ∈ grammar.tokens (text lines) := by
  have hsummary : (summary label count).pieces.flatMap Piece.lexemes =
      [.of .comment (summary label count).text] := by
    rw [← ListingLine.text_pieces, ListingLine.pieces, List.flatMap_singleton,
      List.flatMap_singleton]
    rfl
  have hbehind : ∃ text rest, (indented after ++ ending).flatMap Piece.lexemes =
      .of .white text :: rest := by
    cases after with
    | nil => exact ⟨_, _, rfl⟩
    | cons line after => exact ⟨_, _, rfl⟩
  obtain ⟨white, rest, hbehind⟩ := hbehind
  rw [Grammar.tokens, lexemes_text hlines, h, pieces_append, List.flatMap_append,
    List.flatMap_append, hsummary, hbehind, ← text_front before, ← Piece.flatMap_text_lexemes]
  refine Lexeme.mem_place_joined (x := .of .comment (summary label count).text) ?_ ?_
  · intro y hy
    have hlast : ((Piece.opening :: .keyword "module" :: (indented before ++ [indent])).flatMap
        Piece.lexemes).getLast? = some (.of .white "\n  ".toList) := by
      rw [← List.cons_append, ← List.cons_append, List.flatMap_append]
      exact List.getLast?_concat
    rw [hlast] at hy
    obtain rfl := Option.some.inj hy
    exact fun hsame => by cases hsame.1
  · intro y hy
    obtain rfl := Option.some.inj hy
    exact fun hsame => by cases hsame.1

theorem rereads_text {parts : List Part} (hlines : ∀ line ∈ lines, line.Sound)
    (hnames : lines.flatMap names = parts.flatMap Part.names) :
    Rereads parts lines (text lines) (grammar.tokens (text lines)) := by
  have htokens : grammar.tokens (text lines) =
      Lexeme.place 0 (Lexeme.joined ((pieces lines).flatMap Piece.lexemes)) := by
    rw [Grammar.tokens, ← lexemes_text hlines]
  constructor
  case kinds =>
    intro t ht
    rw [htokens] at ht
    obtain ⟨x, hx, htx⟩ := Lexeme.exists_kind_of_mem_place ht
    obtain ⟨y, hy, hxy⟩ := Lexeme.exists_kind_of_mem_joined hx
    obtain ⟨piece, -, hpiece⟩ := List.mem_flatMap.1 hy
    rw [htx, hxy]
    exact piece.kind_mem_kinds y hpiece
  case brackets =>
    have hbrackets : (SplitEditor.Token.textsOf .bracket (grammar.tokens (text lines))).flatten =
        (pieces lines).flatMap Piece.brackets := by
      rw [htokens, Lexeme.textsOf_place, ← List.flatMap_def, Lexeme.flatMap_text_ofKind_joined,
        Piece.brackets_lexemes]
    rw [hbrackets]
    exact enclosed_pieces lines
  case summaries =>
    intro before label count after h
    obtain ⟨rest, hrest⟩ := exists_text_behind after
    refine ⟨⟨rest, ?_⟩, comment_of_summary hlines h⟩
    rw [← text_pieces, h, pieces_append, List.flatMap_append, List.flatMap_append, text_front,
      ListingLine.text_pieces, hrest]
  case strings =>
    rw [htokens, Lexeme.textsOf_place, Lexeme.ofKind_joined (Piece.isChain_string _),
      Piece.quotations_lexemes, quotations_listing, hnames]

end Rereads

/-- If no name has quotes or backslashes in it, the listing of a module is read back as what it was
written from. -/
theorem tokens_render {bytes : List UInt8} {parts : List Part} {text : String}
    (hparts : Part.ofBytes? bytes = some parts) (hrender : render bytes = .ok text)
    (hnames : ∀ name ∈ parts.flatMap Part.names, '"' ∉ name ∧ '\\' ∉ name) :
    ∃ lines, lines? bytes = some lines ∧
      Rereads parts lines text.toList (Language.wast.tokens text) := by
  rw [render] at hrender
  cases hlines : lines? bytes with
  | none =>
    rw [hlines] at hrender
    cases hrender
  | some lines =>
    rw [hlines] at hrender
    obtain rfl := Except.ok.inj hrender
    obtain ⟨parts', hparts', hmap⟩ := Option.bind_eq_some_iff.1 hlines
    obtain ⟨listed, hlisted, hflatten⟩ := Option.bind_eq_some_iff.1 hmap
    obtain rfl := Option.some.inj hflatten
    obtain rfl := Option.some.inj (hparts.symm.trans hparts')
    obtain ⟨hlisted, hlabels⟩ := names_of_mapM_ofPart? hlisted
    have hsound : ∀ line ∈ listed.flatten, line.Sound := fun line hline => by
      constructor
      case names =>
        intro name hname
        exact hnames name (hlisted ▸ List.mem_flatMap_of_mem hline hname)
      case label =>
        rintro label count rfl
        exact hlabels label count hline
    refine ⟨_, rfl, ?_⟩
    rw [Language.tokens, String.toList_ofList]
    exact rereads_text hsound hlisted

def disguised : List UInt8 :=
  Writer.module [
    Writer.framed 1 (Writer.vector [[0x60, 0x00, 0x00]]),
    Writer.framed 2 (Writer.vector [Writer.name "/*(\n".toList ++ Writer.name [] ++ [0x00, 0x00]]),
    Writer.framed 7 (Writer.vector [Writer.name ";; )".toList ++ [0x00, 0x00]])]

theorem tokens_render_disguised : ∃ parts text lines, Part.ofBytes? disguised = some parts ∧
    render disguised = .ok text ∧
    parts.flatMap Part.names = ["/*(\n".toList, [], ";; )".toList] ∧
    lines? disguised = some lines ∧
      Rereads parts lines text.toList (Language.wast.tokens text) := by
  have hparts : (Part.ofBytes? disguised).map (·.flatMap Part.names) =
      some ["/*(\n".toList, [], ";; )".toList] := by decide +kernel
  have hlines : (lines? disguised).isSome := by decide +kernel
  obtain ⟨parts, hparts, hnames⟩ := Option.map_eq_some_iff.1 hparts
  obtain ⟨lines, hlines⟩ := Option.isSome_iff_exists.1 hlines
  have hrender : render disguised = .ok (String.ofList (text lines)) := by rw [render, hlines]
  obtain ⟨lines', hlines', hrereads⟩ := tokens_render hparts hrender (by rw [hnames]; decide)
  exact ⟨parts, _, lines', hparts, hrender, hnames, hlines', hrereads⟩

end Listing

end Wasm

end SplitEditor
