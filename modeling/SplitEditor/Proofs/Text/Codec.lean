import SplitEditor.Proofs.Text.Transcode

/-! Both codecs write a text as the same bytes, and both read it back. -/

namespace SplitEditor.Codec

theorem encode_eq (codec : Codec) (text : String) :
    codec.encode text = Utf8.encode text.toList := by
  cases codec with
  | native => rfl
  | manual => exact Transcode.encode_eq text.toList

theorem decode_utf8 (codec : Codec) (text : String) :
    codec.decode (Utf8.encode text.toList) = text := by
  cases codec with
  | native => rw [decode, Utf8.decode_encode, String.ofList_toList]
  | manual => rw [decode, Transcode.decode_encode, String.ofList_toList]

theorem utf8_encode_toList (text : String) :
    Utf8.encode text.toList = text.toByteArray.data.toList := by
  rw [← String.utf8Encode_toList, List.utf8Encode, List.toList_data_toByteArray]
  rfl

/-- It does not matter which codec writes a text, nor which one reads it. -/
theorem codecs_interchangeable (text : String) :
    manual.encode text = native.encode text ∧
      native.encode text = text.toByteArray.data.toList ∧
      ∀ writer reader : Codec, reader.decode (writer.encode text) = text := by
  refine ⟨?_, ?_, fun writer reader => ?_⟩
  · rw [encode_eq, encode_eq]
  · rw [encode_eq, utf8_encode_toList]
  · rw [encode_eq, decode_utf8]

end SplitEditor.Codec
