import SplitEditor.Text.Transcode
import SplitEditor.Text.Utf8

/-! How text crosses the boundary of a binary's memory. Source text goes in as UTF-8 with a
closing zero byte; strings that come back have a length of their own and no terminator. -/

namespace SplitEditor

/-- `native` reads and writes UTF-8 directly, `manual` goes through UTF-16 units. -/
inductive Codec where
  | native
  | manual
  deriving Repr, DecidableEq

namespace Codec

def name : Codec → String
  | native => "native"
  | manual => "manual"

def ofName? : String → Option Codec
  | "native" => some native
  | "manual" => some manual
  | _ => none

def encode (codec : Codec) (text : String) : List UInt8 :=
  match codec with
  | native => Utf8.encode text.toList
  | manual => Transcode.encode text.toList

def encodeSource (codec : Codec) (text : String) : List UInt8 :=
  codec.encode text ++ [0]

def decode (codec : Codec) (bytes : List UInt8) : String :=
  match codec with
  | native => String.ofList (Utf8.decode bytes)
  | manual => String.ofList (Transcode.decode bytes)

end Codec

end SplitEditor
