import FileSelection.CommandFile.Lines
import FileSelection.Proofs.Text.Decoding
import FileSelection.Text.Split
import Mathlib.Data.List.TakeWhile

/-! What a byte stream gives, line by line. The bytes are cut at every newline before anything is
decoded; a line that ends there loses one carriage return with its newline, and what stands after
the last newline is a line of its own where the stream ends. Reading the next line takes the first
of these lines off the stream, so a stream is read as the list of its lines. -/

namespace FileSelection.ByteStream

open Text (cut cut_ne_nil cut_append_separator cut_of_not_mem length_cut not_mem_of_mem_cut)
open Text.Utf8

/-! ### Lines as bytes -/

def carriageReturn : UInt8 := 0x0D

/-- A line without the carriage return in front of its newline. -/
def withoutReturn (line : Bytes) : Bytes :=
  if line.getLast? = some carriageReturn then line.dropLast else line

/-- The lines that end with a newline, without it. -/
def terminated (bytes : Bytes) : List Bytes := (cut newline bytes).dropLast

/-- The bytes after the last newline. -/
def unterminated (bytes : Bytes) : Bytes := (cut newline bytes).getLast (cut_ne_nil newline bytes)

/-- The lines of a file, without their ends. -/
def lines (bytes : Bytes) : List Bytes :=
  (terminated bytes).map withoutReturn ++
    if unterminated bytes = [] then [] else [unterminated bytes]

/-- The text of a line, or the failure to read it. -/
def decodeLine (line : Bytes) : Except IoError String :=
  match decode? line with
  | some text => .ok text
  | none => .error .notUtf8

/-- The lines that a stream gives, each with its text or with the failure that reading it meets.
Where the stream fails, what stands after the last newline is no line. -/
def reads (s : ByteStream) : List (Except IoError String) :=
  match s.failure with
  | none => (lines s.bytes).map decodeLine
  | some failure => ((terminated s.bytes).map withoutReturn).map decodeLine ++ [.error failure]

theorem terminated_append_newline (bytes rest : Bytes) :
    terminated (bytes ++ newline :: rest) = cut newline bytes ++ terminated rest := by
  rw [terminated, cut_append_separator, List.dropLast_append_of_ne_nil (cut_ne_nil _ _),
    terminated]

theorem unterminated_append_newline (bytes rest : Bytes) :
    unterminated (bytes ++ newline :: rest) = unterminated rest := by
  simp only [unterminated, cut_append_separator]
  exact List.getLast_append_of_ne_nil _ (cut_ne_nil _ _)

theorem terminated_append_cons {line : Bytes} (h : newline ∉ line) (rest : Bytes) :
    terminated (line ++ newline :: rest) = line :: terminated rest := by
  rw [terminated_append_newline, cut_of_not_mem h, List.singleton_append]

theorem terminated_of_not_mem {bytes : Bytes} (h : newline ∉ bytes) : terminated bytes = [] := by
  rw [terminated, cut_of_not_mem h]
  rfl

theorem unterminated_of_not_mem {bytes : Bytes} (h : newline ∉ bytes) :
    unterminated bytes = bytes := by
  simp only [unterminated, cut_of_not_mem h]
  rfl

theorem lines_append_cons {line : Bytes} (h : newline ∉ line) (rest : Bytes) :
    lines (line ++ newline :: rest) = withoutReturn line :: lines rest := by
  rw [lines, terminated_append_cons h, unterminated_append_newline]
  rfl

/-- The first line of a stream, and the lines of what stands behind it. -/
theorem reads_append_cons {line : Bytes} (h : newline ∉ line) (rest : Bytes)
    (failure : Option IoError) :
    reads { bytes := line ++ newline :: rest, failure } =
      decodeLine (withoutReturn line) :: reads { bytes := rest, failure } := by
  cases failure with
  | none => simp only [reads, lines_append_cons h, List.map_cons]
  | some cause => simp only [reads, terminated_append_cons h, List.map_cons, List.cons_append]

theorem lines_of_not_mem {bytes : Bytes} (h : newline ∉ bytes) :
    lines bytes = if bytes = [] then [] else [bytes] := by
  rw [lines, terminated_of_not_mem h, unterminated_of_not_mem h]
  rfl

theorem mem_of_mem_withoutReturn {line : Bytes} {b : UInt8} (h : b ∈ withoutReturn line) :
    b ∈ line := by
  unfold withoutReturn at h
  split_ifs at h
  · exact List.dropLast_subset _ h
  · exact h

theorem newline_not_mem_of_mem_terminated {bytes line : Bytes}
    (h : line ∈ (terminated bytes).map withoutReturn) : newline ∉ line := by
  obtain ⟨piece, hpiece, rfl⟩ := List.mem_map.1 h
  intro hmem
  exact not_mem_of_mem_cut (List.dropLast_subset _ hpiece) (mem_of_mem_withoutReturn hmem)

theorem newline_not_mem_of_mem_lines {bytes line : Bytes} (h : line ∈ lines bytes) :
    newline ∉ line := by
  rcases List.mem_append.1 h with hterminated | hlast
  · exact newline_not_mem_of_mem_terminated hterminated
  · split_ifs at hlast
    · cases hlast
    · rw [List.mem_singleton.1 hlast]
      exact not_mem_of_mem_cut (List.getLast_mem (cut_ne_nil newline bytes))

theorem decodeLine_eq_ok_iff {line : Bytes} {text : String} :
    decodeLine line = .ok text ↔ line = encode text := by
  rw [← decode?_eq_some_iff, decodeLine]
  cases decode? line <;> simp

/-- No line that is read holds a newline. -/
theorem newline_not_mem_of_mem_reads {s : ByteStream} {text : String} (h : .ok text ∈ s.reads) :
    '\n' ∉ text.toList := by
  have hline : ∃ line, newline ∉ line ∧ decodeLine line = .ok text := by
    unfold reads at h
    split at h
    · obtain ⟨line, hmem, htext⟩ := List.mem_map.1 h
      exact ⟨line, newline_not_mem_of_mem_lines hmem, htext⟩
    · rcases List.mem_append.1 h with hmap | hfailure
      · obtain ⟨line, hmem, htext⟩ := List.mem_map.1 hmap
        exact ⟨line, newline_not_mem_of_mem_terminated hmem, htext⟩
      · cases List.mem_singleton.1 hfailure
  obtain ⟨line, hnewline, htext⟩ := hline
  intro hmem
  apply hnewline
  rw [decodeLine_eq_ok_iff.1 htext]
  exact (mem_encode_iff (by decide)).2 hmem

/-- Bytes are one line, or one line and more bytes after its newline. -/
theorem not_mem_or_exists_line (bytes : Bytes) :
    newline ∉ bytes ∨ ∃ line rest, newline ∉ line ∧ bytes = line ++ newline :: rest := by
  by_cases h : newline ∈ bytes
  · obtain ⟨line, rest, hbytes, hline⟩ := List.eq_append_cons_of_mem h
    exact .inr ⟨line, rest, hline, hbytes⟩
  · exact .inl h

/-- Induction over bytes, line by line from the front. -/
theorem induction_on_lines {P : Bytes → Prop} (last : ∀ bytes, newline ∉ bytes → P bytes)
    (line : ∀ line rest, newline ∉ line → P rest → P (line ++ newline :: rest)) (bytes : Bytes) :
    P bytes := by
  rcases not_mem_or_exists_line bytes with hbytes | ⟨first, rest, hfirst, rfl⟩
  · exact last bytes hbytes
  · exact line first rest hfirst (induction_on_lines last line rest)
termination_by bytes.length

theorem length_terminated (bytes : Bytes) : (terminated bytes).length = bytes.count newline := by
  rw [terminated, List.length_dropLast, length_cut, Nat.add_sub_cancel]

/-- More bytes take no line away. -/
theorem terminated_prefix_append (bytes more : Bytes) :
    terminated bytes <+: terminated (bytes ++ more) := by
  induction bytes using induction_on_lines with
  | last bytes h =>
    rw [terminated_of_not_mem h]
    exact List.nil_prefix
  | line line rest h ih =>
    rw [List.append_assoc, List.cons_append, terminated_append_cons h, terminated_append_cons h]
    exact List.cons_prefix_cons.2 ⟨rfl, ih⟩

/-! ### Reading one line -/

theorem withoutTerminator_push_return_newline (text : String) :
    withoutTerminator ((text.push '\r').push '\n') = text := by
  simp [withoutTerminator]

theorem withoutTerminator_push_newline {text : String} (h : text.toList.getLast? ≠ some '\r') :
    withoutTerminator (text.push '\n') = text := by
  rcases List.eq_nil_or_concat text.toList with hnil | ⟨front, c, hfront⟩
  · have htext : text = "" := String.toList_eq_nil_iff.1 hnil
    rw [htext]
    rfl
  · rw [List.concat_eq_append] at hfront
    have hc : c ≠ '\r' := by simpa [hfront] using h
    have htext : text = String.ofList (front ++ [c]) := by rw [← hfront, String.ofList_toList]
    simp [withoutTerminator, hc, htext]

theorem withoutTerminator_of_not_mem {text : String} (h : '\n' ∉ text.toList) :
    withoutTerminator text = text := by
  have h' : '\n' ∉ text.toList.reverse := by rwa [List.mem_reverse]
  unfold withoutTerminator
  split
  · next heq => exact absurd (by rw [heq]; exact List.mem_cons_self) h'
  · next heq => exact absurd (by rw [heq]; exact List.mem_cons_self) h'
  · rfl

theorem getLast?_ne_return_of_decode? {line : Bytes} {text : String} (h : decode? line = some text)
    (hline : line.getLast? ≠ some carriageReturn) : text.toList.getLast? ≠ some '\r' := by
  intro hlast
  obtain ⟨front, hfront⟩ := List.getLast?_eq_some_iff.1 hlast
  have htext : text = (String.ofList front).push '\r' := by
    apply String.toList_injective
    rw [hfront, String.toList_push, String.toList_ofList]
  apply hline
  rw [decode?_eq_some_iff.1 h, htext, show '\r' = Char.ofNat carriageReturn.toNat from rfl,
    encode_push_ascii (by decide)]
  simp

/-- Bytes up to a newline give the text of the line without its end. -/
theorem readText_append_newline (line : Bytes) :
    readText (line ++ [newline]) = decodeLine (withoutReturn line) := by
  have hnewline : decode? (line ++ [newline]) = (decode? line).map (·.push '\n') :=
    decode?_append_ascii (by decide) line
  rw [readText, hnewline, decodeLine, withoutReturn]
  split_ifs with hreturn
  · obtain ⟨front, rfl⟩ := List.getLast?_eq_some_iff.1 hreturn
    have hfront : decode? (front ++ [carriageReturn]) = (decode? front).map (·.push '\r') :=
      decode?_append_ascii (by decide) front
    rw [hfront, List.dropLast_concat]
    cases decode? front with
    | none => rfl
    | some text => simp [withoutTerminator_push_return_newline]
  · cases htext : decode? line with
    | none => rfl
    | some text =>
      have hlast := getLast?_ne_return_of_decode? htext hreturn
      simp [withoutTerminator_push_newline hlast]

/-- Bytes without a newline are kept as they are. -/
theorem readText_of_not_mem {line : Bytes} (h : newline ∉ line) :
    readText line = decodeLine line := by
  rw [readText, decodeLine]
  cases htext : decode? line with
  | none => rfl
  | some text =>
    have hmem : '\n' ∉ text.toList := by
      intro hmem
      apply h
      rw [decode?_eq_some_iff.1 htext]
      exact (mem_encode_iff (by decide)).2 hmem
    simp [withoutTerminator_of_not_mem hmem]

/-- The stream after its next line. -/
def afterLine (s : ByteStream) : ByteStream :=
  { s with bytes := (s.bytes.dropWhile (· != newline)).tail }

theorem takeWhile_of_not_mem {bytes : Bytes} (h : newline ∉ bytes) :
    bytes.takeWhile (· != newline) = bytes :=
  List.takeWhile_eq_self_iff.2 fun b hb => by simpa using ne_of_mem_of_not_mem hb h

theorem dropWhile_of_not_mem {bytes : Bytes} (h : newline ∉ bytes) :
    bytes.dropWhile (· != newline) = [] :=
  List.dropWhile_eq_nil_iff.2 fun b hb => by simpa using ne_of_mem_of_not_mem hb h

theorem takeWhile_append_newline {line : Bytes} (h : newline ∉ line) (rest : Bytes) :
    (line ++ newline :: rest).takeWhile (· != newline) = line := by
  rw [List.takeWhile_append_of_pos fun b hb => by simpa using ne_of_mem_of_not_mem hb h]
  simp

theorem dropWhile_append_newline {line : Bytes} (h : newline ∉ line) (rest : Bytes) :
    (line ++ newline :: rest).dropWhile (· != newline) = newline :: rest := by
  rw [List.dropWhile_append_of_pos fun b hb => by simpa using ne_of_mem_of_not_mem hb h]
  simp

/-- A stream gives the first of its lines, or its end where there is none. -/
theorem nextLine_eq (s : ByteStream) :
    s.nextLine =
      match s.reads with
      | [] => .ok none
      | read :: _ => read.map fun text => some (text, s.afterLine) := by
  obtain ⟨bytes, failure⟩ := s
  rcases not_mem_or_exists_line bytes with hbytes | ⟨line, rest, hline, rfl⟩
  · simp only [nextLine, takeWhile_of_not_mem hbytes, dropWhile_of_not_mem hbytes, afterLine, reads]
    cases failure with
    | some cause => simp [terminated_of_not_mem hbytes, Except.map]
    | none =>
      simp only [lines_of_not_mem hbytes]
      by_cases hnil : bytes = []
      · simp [hnil]
      · simp [hnil, readText_of_not_mem hbytes]
  · simp only [nextLine, takeWhile_append_newline hline, dropWhile_append_newline hline,
      readText_append_newline, afterLine, reads_append_cons hline, List.tail_cons]

/-- The lines that are left after a line are the others. -/
theorem reads_afterLine {s : ByteStream} {text : String} {rest : List (Except IoError String)}
    (h : s.reads = .ok text :: rest) : s.afterLine.reads = rest := by
  obtain ⟨bytes, failure⟩ := s
  rcases not_mem_or_exists_line bytes with hbytes | ⟨line, tail, hline, rfl⟩
  · simp only [afterLine, dropWhile_of_not_mem hbytes, reads] at h ⊢
    cases failure with
    | some cause => simp [terminated_of_not_mem hbytes] at h
    | none =>
      simp only [lines_of_not_mem hbytes] at h
      by_cases hnil : bytes = []
      · simp [hnil] at h
      · simp only [hnil, if_false, List.map_cons, List.map_nil] at h
        exact (List.cons.inj h).2
  · simp only [afterLine, dropWhile_append_newline hline, List.tail_cons]
    rw [reads_append_cons hline] at h
    exact (List.cons.inj h).2

end FileSelection.ByteStream
