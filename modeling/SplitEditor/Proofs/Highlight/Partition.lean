import SplitEditor.Highlight.Language
import SplitEditor.Proofs.Highlight.OutlineScanner
import SplitEditor.Proofs.Highlight.ScriptScanner

/-! Patches part the source: they lie one behind the other, from its first byte to its last, begin
and end between characters, and neighbours are coloured differently. -/

namespace SplitEditor

open Utf8

/-- The scanner of a language colours what its grammar colours: it never takes a slice that is not
there, and comes to the end of every source. -/
theorem Language.scan_eq (language : Language) (source : String) :
    language.scan source = some (.ok ((language.tokens source).map Token.patch)) := by
  cases language with
  | asl => exact Script.scan_eq source.toList
  | wast => exact Outline.scan_eq source.toList

/-! ### Parts of a source -/

/-- One patch behind the other, from an offset to another. -/
inductive Contiguous : Nat → List Patch → Nat → Prop
  | nil (n : Nat) : Contiguous n [] n
  | cons {p : Patch} {rest : List Patch} {stop : Nat} (h : Contiguous p.stop rest stop) :
    Contiguous p.start (p :: rest) stop

/-- The offset lies in the bytes or at their end, and no byte that continues a sequence follows. -/
def IsCharBoundary (bytes : List UInt8) (offset : Nat) : Prop :=
  offset ≤ bytes.length ∧ ∀ b, bytes[offset]? = some b → ¬IsTail b

/-- The patches of a source are its pieces, in order, each as long as can be. -/
structure Partition (source : List Char) (patches : List Patch) : Prop where
  empty : source = [] → patches = []
  nonempty : ∀ p ∈ patches, p.start < p.stop
  contiguous : Contiguous 0 patches (byteLength source)
  boundary : ∀ p ∈ patches, IsCharBoundary (encode source) p.start ∧
    IsCharBoundary (encode source) p.stop
  text : ∃ texts, patches.mapM (Patch.text source) = .ok texts ∧ texts.flatten = source
  distinct : patches.IsChain fun p q => ¬(p.kind = q.kind ∧ p.scope = q.scope)

theorem Utf8.isCharBoundary_append (before after : List Char) :
    IsCharBoundary (encode (before ++ after)) (byteLength before) := by
  rw [encode_append, ← length_encode]
  refine ⟨List.length_append ▸ Nat.le_add_right _ _, fun b hb => ?_⟩
  rw [List.getElem?_append_right (Nat.le_refl _), Nat.sub_self] at hb
  cases after with
  | nil => cases hb
  | cons c after =>
    cases hbytes : String.utf8EncodeChar c with
    | nil => exact absurd hbytes (encodeChar_ne_nil c)
    | cons lead bytes =>
      rw [encode_cons, hbytes] at hb
      obtain rfl := Option.some.inj hb
      intro htail
      rcases completed_of_encode hbytes with ⟨hascii, -, -⟩ | ⟨p, hopens, -⟩
      · exact absurd htail.1 (Nat.not_le_of_lt hascii)
      · exact hopens.not_stray htail.stray

namespace Lexeme

theorem contiguous_place (start : Nat) (xs : List Lexeme) :
    Contiguous start ((place start xs).map Token.patch)
      (start + byteLength (xs.flatMap text)) := by
  induction xs generalizing start with
  | nil => exact .nil start
  | cons x xs ih =>
    rw [List.flatMap_cons, byteLength_append, ← Nat.add_assoc]
    exact .cons (p := ⟨x.kind, x.scope, start, start + byteLength x.text⟩) (ih _)

theorem text_place (before : List Char) (xs : List Lexeme) (after : List Char) :
    ((place (byteLength before) xs).map Token.patch).mapM
      (Patch.text (before ++ (xs.flatMap text ++ after))) = .ok (xs.map text) := by
  induction xs generalizing before with
  | nil => rfl
  | cons x xs ih =>
    have hfirst : Patch.text (before ++ (x.text ++ (xs.flatMap text ++ after)))
        (Token.patch ⟨x.kind, x.scope, x.text, byteLength before⟩) = .ok x.text :=
      slice_append before x.text (xs.flatMap text ++ after)
    have hrest := ih (before ++ x.text)
    rw [byteLength_append, List.append_assoc] at hrest
    rw [List.flatMap_cons, List.append_assoc, place, List.map_cons, List.mapM_cons, hfirst, hrest]
    rfl

end Lexeme

theorem Grammar.partition_tokens {μ : Type} (g : Grammar μ) (source : List Char) :
    Partition source ((g.tokens source).map Token.patch) := by
  have hlexemes := g.flatMap_text_lexemes (.code g.start) source
  have hjoined := Lexeme.flatMap_text_joined (g.lexemes (.code g.start) source)
  rw [hlexemes] at hjoined
  have hnonempty := Lexeme.joined_nonempty (g.lexemes_nonempty (.code g.start) source)
  have hplace : ∀ t ∈ g.tokens source, ∃ before after, t.text ≠ [] ∧
      source = before ++ (t.text ++ after) ∧ t.start = byteLength before := by
    intro t ht
    obtain ⟨before, after, hmem, htext, hstart⟩ := Lexeme.exists_mem_of_mem_place ht
    obtain ⟨x, hx, hxt⟩ := List.mem_map.1 hmem
    exact ⟨before, after, hxt ▸ hnonempty x hx, hjoined.symm.trans htext,
      hstart.trans (Nat.zero_add _)⟩
  refine ⟨?_, List.forall_mem_map.2 fun t ht => ?_, ?_, List.forall_mem_map.2 fun t ht => ?_,
    ?_, ?_⟩
  · rintro rfl
    rw [tokens, lexemes]
    rfl
  · obtain ⟨-, -, hne, -, -⟩ := hplace t ht
    have hlength := List.length_pos_iff.2 hne
    have hbytes := length_le_byteLength t.text
    show t.start < t.start + byteLength t.text
    omega
  · have h := Lexeme.contiguous_place 0 (Lexeme.joined (g.lexemes (.code g.start) source))
    rw [hjoined, Nat.zero_add] at h
    exact h
  · obtain ⟨before, after, -, rfl, hstart⟩ := hplace t ht
    have hstop := isCharBoundary_append (before ++ t.text) after
    rw [List.append_assoc, byteLength_append, ← hstart] at hstop
    refine ⟨?_, hstop⟩
    show IsCharBoundary _ t.start
    rw [hstart]
    exact isCharBoundary_append before (t.text ++ after)
  · refine ⟨_, ?_, hjoined⟩
    have h := Lexeme.text_place [] (Lexeme.joined (g.lexemes (.code g.start) source)) []
    rw [hjoined, List.append_nil] at h
    exact h
  · rw [List.isChain_map]
    exact Lexeme.isChain_place 0 (Lexeme.isChain_joined _)

namespace Language

/-- In both languages the scan of a source comes to its end, no slice fails on the way, and the
patches part the source. -/
theorem scan_partition (language : Language) (source : String) :
    ∃ patches, language.scan source = some (.ok patches) ∧ Partition source.toList patches := by
  refine ⟨_, language.scan_eq source, ?_⟩
  cases language with
  | asl => exact Script.grammar.partition_tokens source.toList
  | wast => exact Outline.grammar.partition_tokens source.toList

end Language

end SplitEditor
