import FileSelection.Proofs.Run.Streams
import Mathlib.Data.List.DropRight

/-! What a destination contains after writes that succeed. A sink has accepted all the bytes. Behind
a line buffer they may still be held back, but never a complete line: after a write that ends in a
newline the sink has everything. So a buffer holds nothing after events have been written to it, and
flushing it then has no bytes left to offer. -/

namespace FileSelection

open Text.Utf8

/-! ### Successful writes -/

/-- A write that succeeds adds its bytes to the contents, and nothing else. -/
def Destination.Keeps {σ : Type} [Destination σ] (contents : σ → Bytes) : Prop :=
  ∀ {bytes out out'}, Destination.write bytes out = (.ok (), out') →
    contents out' = contents out ++ bytes

namespace Destination.Keeps

variable {σ : Type} [Destination σ] {contents : σ → Bytes} {out out' : σ}

theorem writeAll (h : Keeps contents) {texts : List String}
    (hwrite : Destination.writeAll texts out = (.ok (), out')) :
    contents out' = contents out ++ encode (String.join texts) := by
  induction texts generalizing out with
  | nil =>
    cases hwrite
    rw [String.join_nil, encode_empty, List.append_nil]
  | cons text texts ih =>
    rw [Destination.writeAll] at hwrite
    split at hwrite
    · next between hfirst =>
      rw [ih hwrite, h hfirst, String.join_cons, encode_append, List.append_assoc]
    · cases hwrite

theorem writeAll_events (h : Keeps contents) {format : Format} {events : List Event}
    (hwrite : Event.writeAll format events out = (.ok (), out')) :
    contents out' = contents out ++ Event.rendering format events := by
  rw [Event.rendering_eq_join_chunks]
  exact h.writeAll hwrite

end Destination.Keeps

namespace Sink

variable {sink sink' : Sink} {bytes : Bytes}

theorem accepted_of_write (h : sink.write bytes = (.ok (), sink')) :
    sink'.accepted = sink.accepted ++ bytes := by
  obtain ⟨taken, htaken, -, hwhole⟩ := sink.exists_accepted_took bytes
  rw [took, h] at htaken
  rw [htaken, hwhole (by rw [h])]

theorem keeps_accepted : Destination.Keeps fun sink : Sink => sink.accepted.toList := by
  intro bytes sink sink' h
  change sink'.accepted.toList = sink.accepted.toList ++ bytes
  rw [accepted_of_write h, Array.toList_appendList]

end Sink

/-! ### Line buffers -/

namespace LineBuffer

/-- The bytes behind a buffer, and after them those that it holds. -/
def contents (buffer : LineBuffer) : Bytes := buffer.sink.accepted.toList ++ buffer.held

variable {buffer buffer' : LineBuffer} {bytes : Bytes}

theorem contents_of_held_eq_nil (h : buffer.held = []) :
    buffer.contents = buffer.sink.accepted.toList := by
  rw [contents, h, List.append_nil]

theorem andThen_eq_ok_iff {attempt : Except IoError Unit × LineBuffer}
    {next : LineBuffer → Except IoError Unit × LineBuffer} :
    andThen attempt next = (.ok (), buffer') ↔
      ∃ buffer, attempt = (.ok (), buffer) ∧ next buffer = (.ok (), buffer') := by
  obtain ⟨_ | _, buffer⟩ := attempt
  · simp [andThen]
  · simp [andThen]

/-- What is held moves to the sink. -/
theorem contents_of_release (h : buffer.release = (.ok (), buffer')) :
    buffer'.contents = buffer.contents ∧ buffer'.held = [] := by
  rw [release] at h
  cases hwrite : buffer.sink.write buffer.held with
  | mk result sink =>
    rw [hwrite] at h
    obtain ⟨rfl, rfl⟩ := Prod.mk.inj h
    have haccepted := Sink.accepted_of_write hwrite
    have hheld : buffer.held.drop (sink.accepted.size - buffer.sink.accepted.size) = [] := by
      rw [haccepted, List.drop_eq_nil_iff, ← Array.length_toList, Array.toList_appendList,
        List.length_append, Array.length_toList, Nat.add_sub_cancel_left]
    refine ⟨?_, hheld⟩
    rw [contents_of_held_eq_nil hheld]
    change sink.accepted.toList = _
    rw [haccepted, Array.toList_appendList, contents]

/-- Bytes written past a buffer do not overtake others if it holds none. -/
theorem contents_of_writeThrough (hheld : buffer.held = [])
    (h : buffer.writeThrough bytes = (.ok (), buffer')) :
    buffer'.contents = buffer.contents ++ bytes ∧ buffer'.held = [] := by
  rw [writeThrough] at h
  cases hwrite : buffer.sink.write bytes with
  | mk result sink =>
    rw [hwrite] at h
    obtain ⟨rfl, rfl⟩ := Prod.mk.inj h
    refine ⟨?_, hheld⟩
    rw [contents_of_held_eq_nil hheld, @contents_of_held_eq_nil { buffer with sink } hheld]
    change sink.accepted.toList = _
    rw [Sink.accepted_of_write hwrite, Array.toList_appendList]

theorem contents_of_hold (h : buffer.hold bytes = (.ok (), buffer')) :
    buffer'.contents = buffer.contents ++ bytes := by
  have hadded (buffer : LineBuffer) :
      contents { buffer with held := buffer.held ++ bytes } = buffer.contents ++ bytes :=
    (List.append_assoc _ _ _).symm
  rw [hold] at h
  split_ifs at h with hspace hrelease hlong hlong
  · cases h
    exact hadded buffer
  · obtain ⟨released, hrelease, hwrite⟩ := andThen_eq_ok_iff.1 h
    obtain ⟨hcontents, hheld⟩ := contents_of_release hrelease
    rw [(contents_of_writeThrough hheld hwrite).1, hcontents]
  · obtain ⟨released, hrelease, hwrite⟩ := andThen_eq_ok_iff.1 h
    cases hwrite
    rw [hadded, (contents_of_release hrelease).1]
  · -- There is exactly as much space as it takes, so the buffer is empty.
    have hheld : buffer.held = [] := by
      refine List.eq_nil_of_length_eq_zero ?_
      have hpos : 0 < capacity := by decide
      omega
    exact (contents_of_writeThrough hheld h).1
  · cases h
    exact hadded buffer

/-! ### Lines -/

theorem atLastNewline_append (bytes : Bytes) :
    (atLastNewline bytes).1 ++ (atLastNewline bytes).2 = bytes :=
  List.suffix_iff_eq_append.1 (List.rtakeWhile_suffix (· != newline) bytes)

theorem atLastNewline_concat (bytes : Bytes) :
    atLastNewline (bytes ++ [newline]) = (bytes ++ [newline], []) := by
  have htail : (atLastNewline (bytes ++ [newline])).2 = [] := by simp [atLastNewline]
  have hall := atLastNewline_append (bytes ++ [newline])
  rw [htail, List.append_nil] at hall
  exact Prod.ext hall htail

/-- Writes complete lines at once. -/
def writeLines (lines : Bytes) (buffer : LineBuffer) : Except IoError Unit × LineBuffer :=
  if lines = [] then
    if buffer.held.getLast? = some newline then buffer.release else (.ok (), buffer)
  else if buffer.held = [] then buffer.writeThrough lines
  else andThen (buffer.hold lines) release

theorem write_eq (bytes : Bytes) (buffer : LineBuffer) :
    buffer.write bytes =
      andThen (buffer.writeLines (atLastNewline bytes).1) (hold (atLastNewline bytes).2) := rfl

theorem contents_of_writeLines {lines : Bytes}
    (h : buffer.writeLines lines = (.ok (), buffer')) :
    buffer'.contents = buffer.contents ++ lines ∧ (lines ≠ [] → buffer'.held = []) := by
  rw [writeLines] at h
  split_ifs at h with hlines hlast hheld
  · obtain ⟨hcontents, -⟩ := contents_of_release h
    rw [hcontents, hlines, List.append_nil]
    exact ⟨rfl, absurd rfl⟩
  · cases h
    rw [hlines, List.append_nil]
    exact ⟨rfl, absurd rfl⟩
  · obtain ⟨hcontents, hheld'⟩ := contents_of_writeThrough hheld h
    exact ⟨hcontents, fun _ => hheld'⟩
  · obtain ⟨between, hhold, hrelease⟩ := andThen_eq_ok_iff.1 h
    obtain ⟨hcontents, hheld'⟩ := contents_of_release hrelease
    exact ⟨hcontents.trans (contents_of_hold hhold), fun _ => hheld'⟩

theorem keeps_contents : Destination.Keeps contents := by
  intro bytes buffer buffer' h
  obtain ⟨between, hlines, hhold⟩ := andThen_eq_ok_iff.1 ((write_eq bytes buffer).symm.trans h)
  rw [contents_of_hold hhold, (contents_of_writeLines hlines).1, List.append_assoc,
    atLastNewline_append]

/-- After a newline nothing is held. -/
theorem held_of_write_newline (h : buffer.write (bytes ++ [newline]) = (.ok (), buffer')) :
    buffer'.held = [] := by
  rw [write_eq, atLastNewline_concat] at h
  obtain ⟨between, hlines, hhold⟩ := andThen_eq_ok_iff.1 h
  have hheld : between.held = [] := (contents_of_writeLines hlines).2 (List.concat_ne_nil _ _)
  have hspace : ([] : Bytes).length < capacity - between.held.length := by
    rw [hheld]
    decide
  rw [hold, if_pos hspace] at hhold
  cases hhold
  exact List.append_eq_nil_iff.2 ⟨hheld, rfl⟩

/-- There is nothing to flush in a buffer that holds nothing. -/
theorem flush_of_held_eq_nil (h : buffer.held = []) : buffer.flush.2 = buffer := by
  obtain ⟨sink, held⟩ := buffer
  subst h
  have hrelease : release ⟨sink, []⟩ = (.ok (), ⟨sink, []⟩) := by simp [release]
  rw [flush, hrelease]
  exact congrArg (LineBuffer.mk · []) sink.flush_snd

end LineBuffer

/-- An event ends with a newline. -/
theorem Event.exists_chunks (format : Format) (event : Event) :
    ∃ front, event.chunks format = front ++ ["\n"] := by
  cases format with
  | human =>
    cases event with
    | warning index w =>
      exact ⟨["Warning in line ", toString w.line, " - ", w.rejection.message], rfl⟩
    | row index file => exact ⟨[file.name], rfl⟩
    | error e => exact ⟨["ERROR: ", e.message], rfl⟩
    | failure message => exact ⟨["ERROR: ", message], rfl⟩
  | json => exact ⟨[Text.Json.writeObject event.fields], rfl⟩

/-- Events that are all written to a buffer have reached the sink behind it. -/
theorem LineBuffer.accepted_of_writeAll {buffer buffer' : LineBuffer} {format : Format}
    {events : List Event} (hheld : buffer.held = [])
    (h : Event.writeAll format events buffer = (.ok (), buffer')) :
    buffer'.held = [] ∧
      buffer'.sink.accepted = buffer.sink.accepted ++ Event.rendering format events := by
  have hlast : buffer'.held = [] := by
    rcases List.eq_nil_or_concat events with rfl | ⟨front, event, rfl⟩
    · cases h
      exact hheld
    · obtain ⟨chunks, hchunks⟩ := event.exists_chunks format
      rw [List.concat_eq_append, Event.writeAll, List.flatMap_append, List.flatMap_singleton,
        hchunks, ← List.append_assoc, Destination.writeAll_append] at h
      split at h
      · next between hfront =>
        rw [Destination.writeAll] at h
        split at h
        · next written hnewline =>
          cases h
          exact @held_of_write_newline _ _ [] hnewline
        · cases h
      · cases h
  refine ⟨hlast, Array.toList_inj.1 ?_⟩
  rw [Array.toList_appendList, ← contents_of_held_eq_nil hlast, ← contents_of_held_eq_nil hheld]
  exact keeps_contents.writeAll_events h

end FileSelection
