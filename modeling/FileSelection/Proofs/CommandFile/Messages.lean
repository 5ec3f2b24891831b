import FileSelection.CommandFile.Reader
import FileSelection.Output.Event
import FileSelection.Proofs.Text.QuotedReading

/-! Messages about a command file, and what can be known from them. Every part of a message that a
command file decides is a number or a quotation, so a message shows no concealed character and stays
on its line. The fixed phrases around these parts tell what the message is about: a reader takes
them apart again and gives back the very rejection or fault, so no two have one message. The same
holds for the lines in which a run prints them. -/

namespace FileSelection

open Text

/-! ### Parts of messages -/

namespace Text

theorem drop_phrase (phrase : String) (rest : List Char) :
    (phrase.toList ++ rest).drop phrase.length = rest := by
  rw [← String.length_toList]
  exact List.drop_left

/-- The text that is quoted after a phrase. -/
def quotedAfter (phrase : String) (text : List Char) : Option String :=
  (Quoted.read? (text.drop phrase.length)).map (String.ofList ·.1)

theorem quotedAfter_phrase (phrase quoted : String) (rest : List Char) :
    quotedAfter phrase (phrase.toList ++ ((Quoted.quote quoted).toList ++ rest)) = some quoted := by
  rw [quotedAfter, drop_phrase, Quoted.read?_quote, Option.map_some, String.ofList_toList]

/-- The number after a phrase, and what follows it. -/
def numberAfter (phrase : String) (text : List Char) : Option (ℕ × List Char) :=
  Json.readNumber (text.drop phrase.length)

theorem numberAfter_phrase (phrase : String) (n : ℕ) {next : String}
    (h : next.toList.head?.map Char.isDigit = some false) (rest : List Char) :
    numberAfter phrase (phrase.toList ++ ((Decimal.write n).toList ++ (next.toList ++ rest))) =
      some (n, next.toList ++ rest) := by
  obtain ⟨c, hhead, hc⟩ := Option.map_eq_some_iff.1 h
  obtain ⟨tail, hnext⟩ := List.head?_eq_some_iff.1 hhead
  rw [numberAfter, drop_phrase, hnext]
  exact Json.readNumber_write n hc _

/-- The two numbers after a phrase, with another phrase between them. -/
def numbersAfter (phrase between : String) (text : List Char) : Option (ℕ × ℕ) :=
  (numberAfter phrase text).bind fun read =>
    (Decimal.value? (read.2.drop between.length)).map (read.1, ·)

theorem numbersAfter_phrase (phrase : String) {between : String}
    (h : between.toList.head?.map Char.isDigit = some false) (n m : ℕ) :
    numbersAfter phrase between (phrase.toList ++
      ((Decimal.write n).toList ++ (between.toList ++ (Decimal.write m).toList))) = some (n, m) := by
  rw [numbersAfter, numberAfter_phrase phrase n h, Option.bind_some, drop_phrase,
    Decimal.value?_write, Option.map_some]

/-- The first word, and what follows the blank after it. -/
def firstWord (text : List Char) : String × List Char :=
  (String.ofList (text.takeWhile (· != ' ')), (text.dropWhile (· != ' ')).drop 1)

theorem firstWord_append {word : String} (h : word.toList.all (· != ' ')) (rest : List Char) :
    firstWord (word.toList ++ ' ' :: rest) = (word, rest) := by
  have hword := List.all_eq_true.1 h
  rw [firstWord, List.takeWhile_append_of_pos hword, List.dropWhile_append_of_pos hword]
  simp

end Text

theorem FilterName.all_word (name : FilterName) : name.word.toList.all (· != ' ') := by
  cases name <;> rfl

theorem SortKey.all_word (key : SortKey) : key.word.toList.all (· != ' ') := by
  cases key <;> rfl

/-! ### Reading messages -/

namespace SyntaxFault

/-- The fault that a message tells of. The first letter is enough to know its kind. -/
def ofMessage? (text : List Char) : Option SyntaxFault :=
  match text.head? with
  | some 'e' =>
    (numbersAfter "expected " " parameter(s), found " text).map fun read =>
      .wrongParamCount read.1 read.2
  | some 's' => (quotedAfter "size value " text).map .negativeSize
  | some '"' => (quotedAfter "" text).map .invalidSize
  | some 'l' =>
    (numbersAfter "lower bound " " exceeds upper bound " text).map fun read =>
      .invertedBounds (UInt64.ofNat read.1) (UInt64.ofNat read.2)
  | some 'N' => some (.repeatedModifier .not)
  | some 'R' => some (.repeatedModifier .reverse)
  | some 'u' => (quotedAfter "unexpected token " text).map .unexpectedToken
  | _ => none

theorem ofMessage?_message (fault : SyntaxFault) :
    ofMessage? fault.message.toList = some fault := by
  cases fault with
  | wrongParamCount expected found =>
    have htext : (wrongParamCount expected found).message.toList =
        "expected ".toList ++ ((Decimal.write expected).toList ++
          (" parameter(s), found ".toList ++ (Decimal.write found).toList)) := by
      change ("expected " ++ Decimal.write expected ++ " parameter(s), found " ++
        Decimal.write found).toList = _
      simp only [String.toList_append, List.append_assoc]
    rw [htext]
    change (numbersAfter "expected " " parameter(s), found " ("expected ".toList ++ _)).map _ = _
    rw [numbersAfter_phrase _ rfl, Option.map_some]
  | negativeSize token =>
    have htext : (negativeSize token).message.toList = "size value ".toList ++
        ((Quoted.quote token).toList ++ " must be non-negative".toList) := by
      change ("size value " ++ Quoted.quote token ++ " must be non-negative").toList = _
      simp only [String.toList_append, List.append_assoc]
    rw [htext]
    change (quotedAfter "size value " ("size value ".toList ++ _)).map _ = _
    rw [quotedAfter_phrase, Option.map_some]
  | invalidSize token =>
    have hread := quotedAfter_phrase "" token " is not a valid size".toList
    rw [String.toList_empty, List.nil_append, Quoted.toList_quote_append] at hread
    change ofMessage? (Quoted.quote token ++ " is not a valid size").toList = _
    rw [String.toList_append, Quoted.toList_quote_append]
    change (quotedAfter "" ('"' :: _)).map _ = _
    rw [hread, Option.map_some]
  | invertedBounds min max =>
    have htext : (invertedBounds min max).message.toList =
        "lower bound ".toList ++ ((Decimal.write min.toNat).toList ++
          (" exceeds upper bound ".toList ++ (Decimal.write max.toNat).toList)) := by
      change ("lower bound " ++ Decimal.write min.toNat ++ " exceeds upper bound " ++
        Decimal.write max.toNat).toList = _
      simp only [String.toList_append, List.append_assoc]
    rw [htext]
    change (numbersAfter "lower bound " " exceeds upper bound "
      ("lower bound ".toList ++ _)).map _ = _
    rw [numbersAfter_phrase _ rfl, Option.map_some, UInt64.ofNat_toNat, UInt64.ofNat_toNat]
  | repeatedModifier modifier => cases modifier <;> rfl
  | unexpectedToken token =>
    have htext : (unexpectedToken token).message.toList = "unexpected token ".toList ++
        ((Quoted.quote token).toList ++ []) := by
      change ("unexpected token " ++ Quoted.quote token).toList = _
      rw [String.toList_append, List.append_nil]
    rw [htext]
    change (quotedAfter "unexpected token " ("unexpected token ".toList ++ _)).map _ = _
    rw [quotedAfter_phrase, Option.map_some]

end SyntaxFault

namespace Rejection

/-- The rejection that a message tells of. The first two words are enough to know its kind. -/
def ofMessage? (text : List Char) : Option Rejection :=
  let (first, rest) := firstWord text
  let (second, rest) := firstWord rest
  if first = "unknown" then
    (quotedAfter "name " rest).map
      (if second = "filter" then .unknownFilterName else .unknownOrderName)
  else if first = "illegal" then
    match FilterName.ofWord? second, SortKey.ofWord? second with
    | some filter, _ =>
      (SyntaxFault.ofMessage? (rest.drop "filter: ".length)).map (.illegalFilter filter)
    | none, some key =>
      (SyntaxFault.ofMessage? (rest.drop "order: ".length)).map (.illegalOrder key)
    | none, none => none
  else
    (FilterName.ofWord? first).bind fun filter =>
      (quotedAfter "expects YES or NO, got " rest).map (.invalidBoolean filter)

theorem ofMessage?_message (rejection : Rejection) :
    ofMessage? rejection.message.toList = some rejection := by
  have hunknown : "unknown".toList.all (· != ' ') = true := by decide
  have hillegal : "illegal".toList.all (· != ' ') = true := by decide
  have hfilter : "filter".toList.all (· != ' ') = true := by decide
  have horder : "order".toList.all (· != ' ') = true := by decide
  cases rejection with
  | unknownFilterName name =>
    have htext : (unknownFilterName name).message.toList = "unknown".toList ++ ' ' ::
        ("filter".toList ++ ' ' :: ("name ".toList ++ ((Quoted.quote name).toList ++ []))) := by
      have hphrase : "unknown filter name ".toList =
        "unknown".toList ++ ' ' :: ("filter".toList ++ ' ' :: "name ".toList) := by decide
      change ("unknown filter name " ++ Quoted.quote name).toList = _
      rw [String.toList_append, hphrase]
      simp only [List.append_assoc, List.cons_append, List.append_nil]
    rw [htext, ofMessage?, firstWord_append hunknown]
    dsimp only
    rw [firstWord_append hfilter]
    dsimp only
    rw [if_pos rfl, if_pos rfl, quotedAfter_phrase, Option.map_some]
  | illegalFilter filter reason =>
    have htext : (illegalFilter filter reason).message.toList = "illegal".toList ++ ' ' ::
        (filter.word.toList ++ ' ' :: ("filter: ".toList ++ reason.message.toList)) := by
      have hfirst : "illegal ".toList = "illegal".toList ++ [' '] := by decide
      have hmiddle : " filter: ".toList = ' ' :: "filter: ".toList := by decide
      change ("illegal " ++ filter.word ++ " filter: " ++ reason.message).toList = _
      rw [String.toList_append, String.toList_append, String.toList_append, hfirst, hmiddle]
      simp only [List.append_assoc, List.cons_append, List.nil_append]
    rw [htext, ofMessage?, firstWord_append hillegal]
    dsimp only
    rw [firstWord_append filter.all_word]
    dsimp only
    rw [if_neg (by decide), if_pos rfl, drop_phrase, FilterName.ofWord?_eq_some_iff.2 rfl,
      reason.ofMessage?_message]
    rfl
  | invalidBoolean filter token =>
    have htext : (invalidBoolean filter token).message.toList = filter.word.toList ++ ' ' ::
        ("filter".toList ++ ' ' :: ("expects YES or NO, got ".toList ++
          ((Quoted.quote token).toList ++ []))) := by
      have hphrase : " filter expects YES or NO, got ".toList =
        ' ' :: ("filter".toList ++ ' ' :: "expects YES or NO, got ".toList) := by decide
      change (filter.word ++ " filter expects YES or NO, got " ++ Quoted.quote token).toList = _
      rw [String.toList_append, String.toList_append, hphrase]
      simp only [List.append_assoc, List.cons_append, List.append_nil]
    have hword : filter.word ≠ "unknown" ∧ filter.word ≠ "illegal" := by
      cases filter <;> decide
    rw [htext, ofMessage?, firstWord_append filter.all_word]
    dsimp only
    rw [firstWord_append hfilter]
    dsimp only
    rw [if_neg hword.1, if_neg hword.2, FilterName.ofWord?_eq_some_iff.2 rfl, Option.bind_some,
      quotedAfter_phrase, Option.map_some]
  | unknownOrderName name =>
    have htext : (unknownOrderName name).message.toList = "unknown".toList ++ ' ' ::
        ("order".toList ++ ' ' :: ("name ".toList ++ ((Quoted.quote name).toList ++ []))) := by
      have hphrase : "unknown order name ".toList =
        "unknown".toList ++ ' ' :: ("order".toList ++ ' ' :: "name ".toList) := by decide
      change ("unknown order name " ++ Quoted.quote name).toList = _
      rw [String.toList_append, hphrase]
      simp only [List.append_assoc, List.cons_append, List.append_nil]
    rw [htext, ofMessage?, firstWord_append hunknown]
    dsimp only
    rw [firstWord_append horder]
    dsimp only
    rw [if_pos rfl, if_neg (by decide), quotedAfter_phrase, Option.map_some]
  | illegalOrder key reason =>
    have htext : (illegalOrder key reason).message.toList = "illegal".toList ++ ' ' ::
        (key.word.toList ++ ' ' :: ("order: ".toList ++ reason.message.toList)) := by
      have hfirst : "illegal ".toList = "illegal".toList ++ [' '] := by decide
      have hmiddle : " order: ".toList = ' ' :: "order: ".toList := by decide
      change ("illegal " ++ key.word ++ " order: " ++ reason.message).toList = _
      rw [String.toList_append, String.toList_append, String.toList_append, hfirst, hmiddle]
      simp only [List.append_assoc, List.cons_append, List.nil_append]
    have hother : FilterName.ofWord? key.word = none := by cases key <;> rfl
    rw [htext, ofMessage?, firstWord_append hillegal]
    dsimp only
    rw [firstWord_append key.all_word]
    dsimp only
    rw [if_neg (by decide), if_pos rfl, drop_phrase, hother, SortKey.ofWord?_eq_some_iff.2 rfl,
      reason.ofMessage?_message]
    rfl

end Rejection

namespace LayoutFault

/-- The fault that a message tells of. -/
def ofMessage? (text : List Char) : Option LayoutFault :=
  let (header, rest) := firstWord text
  let told := rest.drop "subsection ".length
  let found := quotedAfter "is missing (found " told
  if header = Phase.filterHeader then
    if told.head? = some 'h' then some .missingFilterDirective else found.map .missingFilterHeader
  else
    if told.head? = some 'h' then some .missingOrderDirective else some (.missingOrderHeader found)

theorem ofMessage?_found {header : String} (h : header.toList.all (· != ' ') = true)
    (found : String) :
    ofMessage? (header ++ " subsection is missing (found " ++ Quoted.quote found ++ ")").toList =
      some (if header = Phase.filterHeader then .missingFilterHeader found
        else .missingOrderHeader (some found)) := by
  have hphrase : " subsection is missing (found ".toList =
    ' ' :: ("subsection ".toList ++ "is missing (found ".toList) := by decide
  have htext : (header ++ " subsection is missing (found " ++ Quoted.quote found ++ ")").toList =
      header.toList ++ ' ' :: ("subsection ".toList ++
        ("is missing (found ".toList ++ ((Quoted.quote found).toList ++ ")".toList))) := by
    rw [String.toList_append, String.toList_append, String.toList_append, hphrase]
    simp only [List.append_assoc, List.cons_append]
  have hhead (rest : List Char) : ("is missing (found ".toList ++ rest).head? ≠ some 'h' := by
    simp
  rw [htext, ofMessage?, firstWord_append h]
  dsimp only
  rw [drop_phrase, quotedAfter_phrase, if_neg (hhead _), if_neg (hhead _), Option.map_some]
  exact (apply_ite some _ _ _).symm

theorem ofMessage?_message (fault : LayoutFault) :
    ofMessage? fault.message.toList = some fault := by
  cases fault with
  | missingFilterHeader found => exact @ofMessage?_found "FILTER" (by decide) found
  | missingFilterDirective => rfl
  | missingOrderHeader found =>
    cases found with
    | none => rfl
    | some found => exact @ofMessage?_found "ORDER" (by decide) found
  | missingOrderDirective => rfl

end LayoutFault

/-! ### What messages show -/

namespace Text

/-- None of the characters of the text is concealed. -/
def Shown (text : String) : Prop := ∀ c ∈ text.toList, isConcealed c = false

theorem Shown.append {a b : String} (ha : Shown a) (hb : Shown b) : Shown (a ++ b) := by
  intro c hc
  rw [String.toList_append] at hc
  exact (List.mem_append.1 hc).elim (ha c) (hb c)

theorem Shown.of_plain {text : String} (h : text.toList.all Quoted.isPlainAscii) : Shown text :=
  fun _ => Quoted.isConcealed_of_mem_plain h

theorem Shown.quote (text : String) : Shown (Quoted.quote text) :=
  fun _ => Quoted.isConcealed_of_mem_quote

theorem Shown.write (n : ℕ) : Shown (Decimal.write n) := by
  intro c hc
  have hdigit : 48 ≤ c.toNat ∧ c.toNat ≤ 57 :=
    Char.isDigit_iff_toNat.1 (Decimal.isDigit_of_mem_write hc)
  exact isConcealed_eq_false (by omega) (by omega)

/-- A control character of C0, DEL or C1, or one of the two separators of lines and paragraphs. -/
def BreaksLine (c : Char) : Prop :=
  c.toNat < 0x20 ∨ 0x7F ≤ c.toNat ∧ c.toNat < 0xA0 ∨ c = '\u2028' ∨ c = '\u2029'

theorem isConcealed_of_breaksLine {c : Char} (h : BreaksLine c) : isConcealed c = true := by
  rcases h with h | h | rfl | rfl
  · exact isConcealed_of_control (.inl h)
  · exact isConcealed_of_control (.inr h)
  · decide +kernel
  · decide +kernel

/-- No character of the text breaks its line or controls what shows it. -/
def OnOneLine (text : String) : Prop := ∀ c ∈ text.toList, ¬ BreaksLine c

theorem Shown.onOneLine {text : String} (h : Shown text) : OnOneLine text := fun c hc hbreak =>
  Bool.noConfusion ((h c hc).symm.trans (isConcealed_of_breaksLine hbreak))

end Text

theorem FilterName.shown_word (name : FilterName) : Shown name.word := by
  cases name <;> exact .of_plain rfl

theorem SortKey.shown_word (key : SortKey) : Shown key.word := by
  cases key <;> exact .of_plain rfl

theorem SyntaxFault.shown_message (fault : SyntaxFault) : Shown fault.message := by
  cases fault with
  | wrongParamCount expected found =>
    have hfirst : Shown ("expected " ++ Decimal.write expected) :=
      (Shown.of_plain rfl).append (.write expected)
    exact (hfirst.append (b := " parameter(s), found ") (.of_plain rfl)).append (.write found)
  | negativeSize token => exact ((Shown.of_plain rfl).append (.quote token)).append (.of_plain rfl)
  | invalidSize token => exact (Shown.quote token).append (.of_plain rfl)
  | invertedBounds min max =>
    exact (((Shown.of_plain rfl).append (.write _)).append (.of_plain rfl)).append (.write _)
  | repeatedModifier modifier => cases modifier <;> exact .of_plain rfl
  | unexpectedToken token => exact (Shown.of_plain rfl).append (.quote token)

theorem Rejection.shown_message (rejection : Rejection) : Shown rejection.message := by
  cases rejection with
  | unknownFilterName name => exact (Shown.of_plain rfl).append (.quote name)
  | illegalFilter filter reason =>
    exact (((Shown.of_plain rfl).append filter.shown_word).append (.of_plain rfl)).append
      reason.shown_message
  | invalidBoolean filter token =>
    exact (filter.shown_word.append (.of_plain rfl)).append (.quote token)
  | unknownOrderName name => exact (Shown.of_plain rfl).append (.quote name)
  | illegalOrder key reason =>
    exact (((Shown.of_plain rfl).append key.shown_word).append (.of_plain rfl)).append
      reason.shown_message

theorem LayoutFault.shown_message (fault : LayoutFault) : Shown fault.message := by
  cases fault with
  | missingFilterHeader found =>
    exact ((Shown.of_plain rfl).append (.quote found)).append (.of_plain rfl)
  | missingFilterDirective => exact .of_plain rfl
  | missingOrderHeader found =>
    cases found with
    | none => exact .of_plain rfl
    | some found => exact ((Shown.of_plain rfl).append (.quote found)).append (.of_plain rfl)
  | missingOrderDirective => exact .of_plain rfl

/-! ### Messages and the lines that show them -/

/-- A reader that gives back every error proves that no two errors have one message. -/
theorem message_injective {ε : Type} {message : ε → String} {read : List Char → Option ε}
    (h : ∀ e, read (message e).toList = some e) : Function.Injective message := by
  intro e e' heq
  have hread := h e
  rw [heq, h e'] at hread
  exact (Option.some.inj hread).symm

namespace Text

/-- A text with a number in front of it, between two phrases. -/
def numbered (phrase : String) (n : ℕ) (between text : String) : String :=
  phrase ++ Decimal.write n ++ between ++ text

theorem numbered_injective {phrase between text text' : String} {n n' : ℕ}
    (h : between.toList.head?.map Char.isDigit = some false)
    (heq : numbered phrase n between text = numbered phrase n' between text') :
    n = n' ∧ text = text' := by
  have hlist (n : ℕ) (text : String) : (numbered phrase n between text).toList =
      phrase.toList ++ ((Decimal.write n).toList ++ (between.toList ++ text.toList)) := by
    simp only [numbered, String.toList_append, List.append_assoc]
  have hread := numberAfter_phrase phrase n h text.toList
  rw [← hlist, heq, hlist, numberAfter_phrase phrase n' h] at hread
  obtain ⟨hn, hrest⟩ := Prod.mk.inj (Option.some.inj hread)
  exact ⟨hn.symm, String.toList_injective (List.append_cancel_left hrest.symm)⟩

theorem Shown.numbered {phrase between text : String} (hphrase : Shown phrase) (n : ℕ)
    (hbetween : Shown between) (htext : Shown text) : Shown (numbered phrase n between text) :=
  ((hphrase.append (.write n)).append hbetween).append htext

end Text

/-- What a human reader is shown of a warning, without the end of the line. -/
def Warning.shown (w : Warning) : String :=
  numbered "Warning in line " w.line " - " w.rejection.message

/-- What a human reader is shown of a fault in a line. -/
def LayoutFault.shown (found : ℕ × LayoutFault) : String :=
  numbered "ERROR: line " found.1 ": " found.2.message

theorem Event.line_warning (index : ℕ) (w : Warning) :
    (Event.warning index w).line .human = w.shown ++ "\n" := by
  change String.join
    ["Warning in line ", Decimal.write w.line, " - ", w.rejection.message, "\n"] = _
  simp only [String.join_cons, String.join_nil, String.append_empty, Warning.shown, numbered,
    String.append_assoc]

theorem Event.line_layout (found : ℕ × LayoutFault) :
    (Event.error (.layout found.1 found.2)).line .human = LayoutFault.shown found ++ "\n" := by
  have hphrase : "ERROR: line " = "ERROR: " ++ "line " := by decide
  change String.join
    ["ERROR: ", "line " ++ Decimal.write found.1 ++ ": " ++ found.2.message, "\n"] = _
  simp only [String.join_cons, String.join_nil, String.append_empty, LayoutFault.shown, numbered,
    hphrase, String.append_assoc]

theorem Warning.shown_injective : Function.Injective Warning.shown := by
  intro w w' heq
  obtain ⟨hline, hmessage⟩ := numbered_injective rfl heq
  cases w
  cases w'
  exact congrArg₂ Warning.mk hline (message_injective Rejection.ofMessage?_message hmessage)

theorem LayoutFault.shown_injective : Function.Injective LayoutFault.shown := by
  intro found found' heq
  obtain ⟨hline, hmessage⟩ := numbered_injective rfl heq
  exact Prod.ext hline (message_injective LayoutFault.ofMessage?_message hmessage)

/-- Whatever characters a command file contains, the messages of its rejections and faults stay on
one line, and each gives back what it is about, the quoted text with it. So do the lines in which a
human reader is shown them: none holds a second line, and none looks like that of another warning
or fault. -/
theorem messages_tell_errors_apart :
    (∀ rejection : Rejection, OnOneLine rejection.message ∧
      Rejection.ofMessage? rejection.message.toList = some rejection) ∧
    (∀ fault : LayoutFault, OnOneLine fault.message ∧
      LayoutFault.ofMessage? fault.message.toList = some fault) ∧
    Function.Injective Rejection.message ∧
    Function.Injective LayoutFault.message ∧
    (∀ index w, (Event.warning index w).line .human = w.shown ++ "\n" ∧ OnOneLine w.shown) ∧
    (∀ found, (Event.error (.layout found.1 found.2)).line .human =
      LayoutFault.shown found ++ "\n" ∧ OnOneLine (LayoutFault.shown found)) ∧
    Function.Injective Warning.shown ∧
    Function.Injective LayoutFault.shown := by
  refine ⟨fun rejection => ⟨rejection.shown_message.onOneLine, rejection.ofMessage?_message⟩,
    fun fault => ⟨fault.shown_message.onOneLine, fault.ofMessage?_message⟩,
    message_injective Rejection.ofMessage?_message,
    message_injective LayoutFault.ofMessage?_message,
    fun index w => ⟨Event.line_warning index w, Shown.onOneLine ?_⟩,
    fun found => ⟨Event.line_layout found, Shown.onOneLine ?_⟩,
    Warning.shown_injective, LayoutFault.shown_injective⟩
  · exact .numbered (.of_plain rfl) w.line (.of_plain rfl) w.rejection.shown_message
  · exact .numbered (.of_plain rfl) found.1 (.of_plain rfl) found.2.shown_message

/-- A line with the words for the end of the file is not taken for it. -/
example : (LayoutFault.missingOrderHeader (some "end of input")).message =
    "ORDER subsection is missing (found \"end of input\")" := by decide +kernel

end FileSelection
