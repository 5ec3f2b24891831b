import FileSelection.IoError
import FileSelection.Text.Utf8

/-! Lines of a byte stream. A line ends with a newline, or with a carriage return and a newline.
Bytes after the last newline are a line where the stream ends, and are lost where it fails. -/

namespace FileSelection

/-- Bytes to be read, and the failure that reading meets after them. Without a failure they end
there. -/
structure ByteStream where
  bytes : Bytes
  failure : Option IoError := none
  deriving DecidableEq, Repr

namespace ByteStream

def newline : UInt8 := 0x0A

/-- A line without its terminator. A carriage return goes only with a newline after it. -/
def withoutTerminator (line : String) : String :=
  match line.toList.reverse with
  | '\n' :: '\r' :: text => String.ofList text.reverse
  | '\n' :: text => String.ofList text.reverse
  | _ => line

/-- The text of a line's bytes, terminator and all. -/
def readText (line : Bytes) : Except IoError String :=
  match Text.Utf8.decode? line with
  | some text => .ok (withoutTerminator text)
  | none => .error .notUtf8

/-- The next line and the stream after it; `none` at the end. -/
def nextLine (stream : ByteStream) : Except IoError (Option (String × ByteStream)) :=
  let line := stream.bytes.takeWhile (· != newline)
  match stream.bytes.dropWhile (· != newline), stream.failure with
  | terminator :: rest, _ =>
    (readText (line ++ [terminator])).map fun text => some (text, { stream with bytes := rest })
  | [], some failure => .error failure
  | [], none =>
    if line = [] then .ok none
    else (readText line).map fun text => some (text, { stream with bytes := [] })

theorem length_lt_of_nextLine {s rest : ByteStream} {text : String}
    (h : s.nextLine = .ok (some (text, rest))) : rest.bytes.length < s.bytes.length := by
  have hs : (s.bytes.takeWhile (· != newline)).length + (s.bytes.dropWhile (· != newline)).length
      = s.bytes.length := by
    rw [← List.length_append, List.takeWhile_append_dropWhile]
  simp only [nextLine] at h
  split at h
  · next hdrop =>
    rw [hdrop, List.length_cons] at hs
    cases hread : readText _ with
    | error _ => rw [hread] at h; cases h
    | ok _ => rw [hread] at h; cases h; simp only; omega
  · cases h
  · next hdrop _ =>
    rw [hdrop, List.length_nil] at hs
    split at h
    · cases h
    · next hne =>
      have := List.length_pos_iff.2 hne
      cases hread : readText _ with
      | error _ => rw [hread] at h; cases h
      | ok _ => rw [hread] at h; cases h; simp only [List.length_nil]; omega

end ByteStream

end FileSelection
