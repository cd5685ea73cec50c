import ApiAnnotations.Event
import ApiAnnotations.Text.Lines
import ApiAnnotations.Text.Utf8

/-! # Source files

A source file is a path and the lines read from it. Bytes that are not UTF-8 are replaced, and
reported once for the file. -/

namespace ApiAnnotations

structure SourceFile where
  path : Text
  lines : List Text
deriving DecidableEq

namespace SourceFile

def ofText (path text : Text) : SourceFile := ⟨path, Text.lines text⟩

def ofBytes (path : Text) (bytes : List UInt8) : SourceFile := ofText path (Text.decodeLossy bytes)

def bytesEvents (path : Text) (bytes : List UInt8) : List Event :=
  if Text.isUtf8 bytes then [] else [.replacedBytes path]

end SourceFile

end ApiAnnotations
