import SplitEditor.Analysis.Detect

/-! Which binaries pass for core modules. The last header decides, and the headers of the binaries
in a component come behind its own: a component passes just in case the binary that is entered
last in it is a core module. -/

namespace SplitEditor

namespace Wasm

def ownEncoding? (bytes : List UInt8) : Option Encoding := (Part.ofHeader? bytes).map (·.2.1)

namespace Part

def encoding? : Part → Option Encoding
  | header _ encoding => some encoding
  | _ => none

def encodings (parts : List Part) : List Encoding := parts.filterMap encoding?

def nested (parts : List Part) : List Encoding := encodings parts.tail

variable {bytes body rest : List UInt8} {parts : List Part} {part : Part} {id : UInt8}
  {encoding : Encoding} {missing : Option Nat}

theorem encoding?_entries? {kind : EntryKind} (h : entries? kind body = some part) :
    part.encoding? = none := by
  obtain ⟨_, -, rfl⟩ := Option.map_eq_some_iff.1 h
  rfl

theorem encoding?_ofModule? (h : ofModule? id body = some part) : part.encoding? = none := by
  unfold ofModule? at h
  split at h
  case h_1 | h_9 | h_11 | h_13 =>
    obtain ⟨_, -, rfl⟩ := Option.map_eq_some_iff.1 h
    rfl
  case h_15 =>
    obtain rfl := Option.some.inj h
    rfl
  all_goals exact encoding?_entries? h

theorem encodings_module (h : readFrom (some .module) missing bytes = some parts) :
    encodings parts = [] := by
  generalize hmodule : some Encoding.module = start at h
  fun_induction readFrom start missing bytes generalizing parts with
  | case1 | case2 => cases hmodule
  | case3 =>
    obtain rfl := Option.some.inj h
    rfl
  | case4 | case5 | case7 => cases h
  | case6 _ _ _ _ _ _ _ _ hcomponent =>
    obtain rfl := Option.some.inj hmodule
    cases hcomponent.1
  | case8 =>
    rename_i ih
    obtain ⟨part, hpart, h⟩ := Option.bind_eq_some_iff.1 h
    obtain ⟨sections, hsections, h⟩ := Option.bind_eq_some_iff.1 h
    obtain rfl := Option.some.inj h
    exact (List.filterMap_cons_none (encoding?_ofModule? hpart)).trans (ih rfl hsections)
  | case9 => cases hmodule

theorem ofHeader?_eq_header (h : ofHeader? bytes = some (part, encoding, rest)) :
    part.encoding? = some encoding := by
  unfold ofHeader? at h
  split at h
  · cases h
    rfl
  · cases h
    rfl
  · cases h

theorem exists_header (h : ofBytes? bytes = some parts) : ∃ part encoding rest sections,
    ofHeader? bytes = some (part, encoding, rest) ∧ parts = part :: sections ∧
      readFrom (some encoding) none rest = some sections := by
  rw [ofBytes?, readFrom] at h
  split at h
  · cases h
  · next part encoding rest hheader =>
    obtain ⟨sections, hsections, rfl⟩ := Option.map_eq_some_iff.1 h
    exact ⟨part, encoding, rest, sections, hheader, rfl, hsections⟩

theorem encodings_eq_cons (h : ofBytes? bytes = some parts) : ∃ encoding,
    ownEncoding? bytes = some encoding ∧ encodings parts = encoding :: nested parts := by
  obtain ⟨part, encoding, rest, sections, hheader, rfl, -⟩ := exists_header h
  refine ⟨encoding, by rw [ownEncoding?, hheader, Option.map_some], ?_⟩
  exact List.filterMap_cons_some (ofHeader?_eq_header hheader)

theorem nested_eq_nil (h : ofBytes? bytes = some parts)
    (hmodule : ownEncoding? bytes = some .module) : nested parts = [] := by
  obtain ⟨part, encoding, rest, sections, hheader, rfl, hsections⟩ := exists_header h
  rw [ownEncoding?, hheader] at hmodule
  obtain rfl := Option.some.inj hmodule
  exact encodings_module hsections

end Part

end Wasm

open Wasm Wasm.Part

variable {bytes : List UInt8} {parts : List Part}

theorem lastEncoding_eq (parts : List Part) : lastEncoding parts = (encodings parts).getLast? := by
  have hstep : lastEncoding parts =
      parts.foldl (fun found part => part.encoding?.or found) none := by
    rw [lastEncoding]
    congr
    funext found part
    cases part <;> rfl
  have hfold (found : Option Encoding) :
      parts.foldl (fun found part => part.encoding?.or found) found =
        (encodings parts).getLast?.or found := by
    clear hstep
    induction parts generalizing found with
    | nil => rfl
    | cons part parts ih =>
      rw [List.foldl_cons, ih, encodings, encodings]
      cases hpart : part.encoding? with
      | none => rw [List.filterMap_cons_none hpart, Option.none_or]
      | some encoding =>
        rw [List.filterMap_cons_some hpart, List.getLast?_cons, Option.some_or]
        cases (parts.filterMap encoding?).getLast? <;> rfl
  rw [hstep, hfold, Option.or_none]

/-- The verdict on any bytes: what begins as a module passes if it can be read to its end, and what
begins as a component goes by the last binary in it. -/
theorem checkCoreModule_eq (bytes : List UInt8) : checkCoreModule bytes =
    match ofBytes? bytes, ownEncoding? bytes with
    | some _, some .module => .ok ()
    | some parts, some .component =>
      if (nested parts).getLast? = some .module then .ok () else .error .componentBinary
    | _, _ => .error .malformedBinary := by
  rw [checkCoreModule]
  cases hparts : ofBytes? bytes with
  | none => rfl
  | some parts =>
    obtain ⟨encoding, hown, hencodings⟩ := encodings_eq_cons hparts
    simp only [lastEncoding_eq, hencodings, hown, List.getLast?_cons]
    cases encoding with
    | module =>
      rw [nested_eq_nil hparts hown]
      rfl
    | component =>
      cases hlast : (nested parts).getLast? with
      | none => simp [hlast]
      | some last => cases last <;> simp [hlast]

/-- Bytes that pass are a core module and nothing else, unless they are a component and the last
binary in it is a core module. -/
theorem passes_only_modules_iff (bytes : List UInt8) :
    (checkCoreModule bytes = .ok () →
      (ofBytes? bytes).isSome ∧ ownEncoding? bytes = some .module) ↔
    ¬∃ parts, ofBytes? bytes = some parts ∧ ownEncoding? bytes = some .component ∧
      (nested parts).getLast? = some .module := by
  rw [checkCoreModule_eq]
  cases hparts : ofBytes? bytes with
  | none => simp
  | some parts =>
    obtain ⟨encoding, hown, -⟩ := encodings_eq_cons hparts
    cases encoding with
    | module => simp [hown]
    | component => simp [hown]

def modularComponent : List UInt8 :=
  [0x00, 0x61, 0x73, 0x6D, 0x0D, 0x00, 0x01, 0x00] ++
    [0x01, 0x08, 0x00, 0x61, 0x73, 0x6D, 0x01, 0x00, 0x00, 0x00]

/-- It passes although its own header is that of a component. -/
theorem modularComponent_passes : checkCoreModule modularComponent = .ok () ∧
    ownEncoding? modularComponent = some .component := by
  have hparts : ofBytes? modularComponent =
      some [.header 13 .component, .header 1 .module] := by decide +kernel
  refine ⟨?_, by decide⟩
  rw [checkCoreModule_eq, hparts]
  rfl

end SplitEditor
