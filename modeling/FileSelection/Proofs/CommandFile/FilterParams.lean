import FileSelection.CommandFile.DirectiveLines
import FileSelection.Proofs.CommandFile.SizeTokens
import Mathlib.Data.List.Basic

/-! The parameters of filters. A filter takes so many of them, each a size, a `YES` or `NO`, or any
text, and has the values that they write. The verdict on parameters is the filter with these values,
unless there are too many or too few, one of them is no parameter of the filter, or bounds are not
in order where they have to be; the first of these that is so decides. The main statement is that
parameters are read as their verdict. -/

namespace FileSelection

/-! ### Tokens -/

/-- What a filter takes as its parameters. -/
inductive ParamKind
  | size
  | answer
  | text
  deriving DecidableEq, Repr

namespace FilterName

def paramKind : FilterName → ParamKind
  | .greaterThan | .smallerThan | .between => .size
  | .writable | .executable | .hidden => .answer
  | .file | .contains | .startsWith | .endsWith | .all => .text

/-- A token is a parameter of the filter. Any text is a text. -/
def Takes (name : FilterName) (token : String) : Prop :=
  match name.paramKind with
  | .size => ∃ n, Size.Writes token.toList n
  | .answer => token = "YES" ∨ token = "NO"
  | .text => True

/-- Why a token is no parameter of the filter. -/
inductive Refuses (name : FilterName) (token : String) : Rejection → Prop
  | size {fault : SyntaxFault} (hkind : name.paramKind = .size) (h : Size.Refused token fault) :
    Refuses name token (.illegalFilter name fault)
  | answer (hkind : name.paramKind = .answer) (hyes : token ≠ "YES") (hno : token ≠ "NO") :
    Refuses name token (.invalidBoolean name token)

theorem takes_or_refuses (name : FilterName) (token : String) :
    name.Takes token ∨ ∃ rejection, name.Refuses token rejection := by
  unfold Takes
  cases hkind : name.paramKind with
  | size => exact (Size.writes_or_refused token).imp_right fun ⟨_, h⟩ => ⟨_, .size hkind h⟩
  | answer =>
    by_cases hanswer : token = "YES" ∨ token = "NO"
    · exact .inl hanswer
    · obtain ⟨hyes, hno⟩ := not_or.1 hanswer
      exact .inr ⟨_, .answer hkind hyes hno⟩
  | text => exact .inl trivial

theorem takes_iff_of_size {name : FilterName} {token : String} (hkind : name.paramKind = .size) :
    name.Takes token ↔ ∃ n, Size.ofToken token = .ok n := by
  simp only [Takes, hkind, Size.ofToken_eq_ok_iff]

/-- All tokens are parameters of the filter, or there is a leftmost one that is none. -/
theorem takes_or_refuses_first (name : FilterName) (tokens : List String) :
    (∀ token ∈ tokens, name.Takes token) ∨
      ∃ front token back rejection, tokens = front ++ token :: back ∧
        (∀ t ∈ front, name.Takes t) ∧ name.Refuses token rejection := by
  induction tokens with
  | nil => exact .inl (List.forall_mem_nil _)
  | cons token tokens ih =>
    rcases name.takes_or_refuses token with htakes | ⟨rejection, hrefuses⟩
    · rcases ih with hall | ⟨front, t, back, rejection, rfl, hfront, ht⟩
      · exact .inl (List.forall_mem_cons.2 ⟨htakes, hall⟩)
      · exact .inr ⟨token :: front, t, back, rejection, rfl,
          List.forall_mem_cons.2 ⟨htakes, hfront⟩, ht⟩
    · exact .inr ⟨[], token, tokens, rejection, rfl, List.forall_mem_nil _, hrefuses⟩

end FilterName

namespace Filter

theorem sizeParam_of_writes {name : FilterName} {token : String} {n : UInt64}
    (h : Size.Writes token.toList n) : sizeParam name token = .ok n := by
  rw [sizeParam, Size.ofToken_of_writes h]
  rfl

theorem sizeParam_of_refused {name : FilterName} {token : String} {fault : SyntaxFault}
    (h : Size.Refused token fault) : sizeParam name token = .error (.illegalFilter name fault) := by
  rw [sizeParam, Size.ofToken_of_refused h]
  rfl

theorem boolParam_of_answer (name : FilterName) (wanted : Bool) :
    boolParam name (if wanted then "YES" else "NO") = .ok wanted := by
  cases wanted <;> rfl

theorem boolParam_of_refused {name : FilterName} {token : String} (hyes : token ≠ "YES")
    (hno : token ≠ "NO") : boolParam name token = .error (.invalidBoolean name token) := by
  rw [boolParam, if_neg hyes, if_neg hno]

theorem exists_answer {token : String} (h : token = "YES" ∨ token = "NO") :
    ∃ wanted : Bool, token = if wanted then "YES" else "NO" := by
  rcases h with rfl | rfl
  · exact ⟨true, rfl⟩
  · exact ⟨false, rfl⟩

/-! ### Values -/

/-- The filter of a name and parameters, with their values. -/
inductive Reads : FilterName → List String → Filter → Prop
  | greaterThan {token : String} {n : UInt64} (h : Size.Writes token.toList n) :
    Reads .greaterThan [token] (.greaterThan n)
  | smallerThan {token : String} {n : UInt64} (h : Size.Writes token.toList n) :
    Reads .smallerThan [token] (.smallerThan n)
  | between {low high : String} {min max : UInt64} (hlow : Size.Writes low.toList min)
    (hhigh : Size.Writes high.toList max) : Reads .between [low, high] (.between min max)
  | file (text : String) : Reads .file [text] (.file text)
  | contains (text : String) : Reads .contains [text] (.contains text)
  | startsWith (text : String) : Reads .startsWith [text] (.startsWith text)
  | endsWith (text : String) : Reads .endsWith [text] (.endsWith text)
  | writable (wanted : Bool) : Reads .writable [if wanted then "YES" else "NO"] (.writable wanted)
  | executable (wanted : Bool) :
    Reads .executable [if wanted then "YES" else "NO"] (.executable wanted)
  | hidden (wanted : Bool) : Reads .hidden [if wanted then "YES" else "NO"] (.hidden wanted)
  | all : Reads .all [] .all

theorem Reads.filterName_eq {name : FilterName} {params : List String} {f : Filter}
    (h : Reads name params f) : f.filterName = name := by
  cases h <;> rfl

theorem Reads.length_eq {name : FilterName} {params : List String} {f : Filter}
    (h : Reads name params f) : params.length = name.arity := by
  cases h <;> rfl

theorem Reads.takes {name : FilterName} {params : List String} {f : Filter} {token : String}
    (h : Reads name params f) (htoken : token ∈ params) : name.Takes token := by
  have hanswer (wanted : Bool) : (if wanted then "YES" else "NO") = "YES" ∨
      (if wanted then "YES" else "NO") = "NO" := by
    cases wanted <;> decide
  cases h with
  | greaterThan h | smallerThan h =>
    obtain rfl := List.mem_singleton.1 htoken
    exact ⟨_, h⟩
  | between hlow hhigh =>
    rcases List.mem_pair.1 htoken with rfl | rfl
    · exact ⟨_, hlow⟩
    · exact ⟨_, hhigh⟩
  | file | contains | startsWith | endsWith => trivial
  | writable wanted | executable wanted | hidden wanted =>
    obtain rfl := List.mem_singleton.1 htoken
    exact hanswer wanted
  | all => cases htoken

/-- Where bounds have to be in order, they are. -/
def Ordered (rule : BoundsRule) (f : Filter) : Prop :=
  rule = .strict → ∀ min max, f = .between min max → min ≤ max

theorem ordered_lax (f : Filter) : f.Ordered .lax := by
  intro hrule
  cases hrule

/-- As many parameters as the filter takes, all of them valid, make a filter. -/
theorem exists_reads {name : FilterName} {params : List String}
    (hcount : params.length = name.arity) (h : ∀ token ∈ params, name.Takes token) :
    ∃ f, Reads name params f := by
  cases name with
  | between =>
    obtain ⟨low, high, rfl⟩ := List.length_eq_two.1 hcount
    obtain ⟨min, hlow⟩ := h low (by simp)
    obtain ⟨max, hhigh⟩ := h high (by simp)
    exact ⟨_, .between hlow hhigh⟩
  | all =>
    obtain rfl := List.eq_nil_of_length_eq_zero hcount
    exact ⟨_, .all⟩
  | greaterThan =>
    obtain ⟨token, rfl⟩ := List.length_eq_one_iff.1 hcount
    obtain ⟨n, hn⟩ := h token List.mem_cons_self
    exact ⟨_, .greaterThan hn⟩
  | smallerThan =>
    obtain ⟨token, rfl⟩ := List.length_eq_one_iff.1 hcount
    obtain ⟨n, hn⟩ := h token List.mem_cons_self
    exact ⟨_, .smallerThan hn⟩
  | file | contains | startsWith | endsWith =>
    obtain ⟨text, rfl⟩ := List.length_eq_one_iff.1 hcount
    exact ⟨_, by constructor⟩
  | writable =>
    obtain ⟨token, rfl⟩ := List.length_eq_one_iff.1 hcount
    obtain ⟨wanted, rfl⟩ := exists_answer (h token List.mem_cons_self)
    exact ⟨_, .writable wanted⟩
  | executable =>
    obtain ⟨token, rfl⟩ := List.length_eq_one_iff.1 hcount
    obtain ⟨wanted, rfl⟩ := exists_answer (h token List.mem_cons_self)
    exact ⟨_, .executable wanted⟩
  | hidden =>
    obtain ⟨token, rfl⟩ := List.length_eq_one_iff.1 hcount
    obtain ⟨wanted, rfl⟩ := exists_answer (h token List.mem_cons_self)
    exact ⟨_, .hidden wanted⟩

/-- The verdict on the parameters of a filter. -/
inductive Verdict (rule : BoundsRule) (name : FilterName) (params : List String) :
    Except Rejection Filter → Prop
  | wrongParamCount (h : params.length ≠ name.arity) :
    Verdict rule name params
      (.error (.illegalFilter name (.wrongParamCount name.arity params.length)))
  | invalidParam {front back : List String} {token : String} {rejection : Rejection}
    (hcount : params.length = name.arity) (hparams : params = front ++ token :: back)
    (hfront : ∀ t ∈ front, name.Takes t) (h : name.Refuses token rejection) :
    Verdict rule name params (.error rejection)
  | invertedBounds {min max : UInt64} (hreads : Reads name params (.between min max))
    (hrule : rule = .strict) (h : max < min) :
    Verdict rule name params (.error (.illegalFilter name (.invertedBounds min max)))
  | accepted {f : Filter} (hreads : Reads name params f) (hordered : f.Ordered rule) :
    Verdict rule name params (.ok f)

variable {rule : BoundsRule} {name : FilterName} {params : List String} {f : Filter}

/-- Any parameters have a verdict. -/
theorem exists_verdict (rule : BoundsRule) (name : FilterName) (params : List String) :
    ∃ result, Verdict rule name params result := by
  by_cases hcount : params.length = name.arity
  swap
  · exact ⟨_, .wrongParamCount hcount⟩
  rcases name.takes_or_refuses_first params with
    htakes | ⟨front, token, back, rejection, hparams, hfront, h⟩
  swap
  · exact ⟨_, .invalidParam hcount hparams hfront h⟩
  obtain ⟨f, hreads⟩ := exists_reads hcount htakes
  by_cases hordered : f.Ordered rule
  · exact ⟨_, .accepted hreads hordered⟩
  · simp only [Ordered, Classical.not_imp, not_forall] at hordered
    obtain ⟨hrule, min, max, rfl, hle⟩ := hordered
    exact ⟨_, .invertedBounds hreads hrule (UInt64.not_le.1 hle)⟩

/-! ### Reading -/

theorem ofParams_of_count (h : params.length ≠ name.arity) :
    ofParams rule name params =
      .error (.illegalFilter name (.wrongParamCount name.arity params.length)) := by
  unfold ofParams
  split
  case h_12 => rfl
  all_goals exact absurd rfl h

/-- The leftmost token that is no parameter decides. -/
theorem ofParams_of_refused {front back : List String} {token : String} {rejection : Rejection}
    (hcount : (front ++ token :: back).length = name.arity) (hfront : ∀ t ∈ front, name.Takes t)
    (h : name.Refuses token rejection) :
    ofParams rule name (front ++ token :: back) = .error rejection := by
  have hone (hlength : front.length + (back.length + 1) = 1) :
      front ++ token :: back = [token] := by
    obtain rfl : front = [] := List.eq_nil_of_length_eq_zero (by omega)
    obtain rfl : back = [] := List.eq_nil_of_length_eq_zero (by omega)
    rfl
  rw [List.length_append, List.length_cons] at hcount
  cases h with
  | size hkind h =>
    cases name with
    | greaterThan =>
      rw [hone hcount, ofParams, sizeParam_of_refused h]
      rfl
    | smallerThan =>
      rw [hone hcount, ofParams, sizeParam_of_refused h]
      rfl
    | between =>
      -- The token is the first of the two, or the second after a valid one.
      match front, back with
      | [], [high] =>
        simp only [List.nil_append, ofParams, sizeParam_of_refused h, bind, Except.bind]
      | [low], [] =>
        obtain ⟨min, hlow⟩ := hfront low List.mem_cons_self
        simp only [List.cons_append, List.nil_append, ofParams, sizeParam_of_writes hlow,
          sizeParam_of_refused h, bind, Except.bind]
      | [], [] | [], _ :: _ :: _ | [_], _ :: _ | _ :: _ :: _, _ =>
        simp only [List.length_cons, List.length_nil, FilterName.arity] at hcount
        omega
    | _ => cases hkind
  | answer hkind hyes hno =>
    cases name with
    | writable | executable | hidden =>
      rw [hone hcount, ofParams, boolParam_of_refused hyes hno]
      rfl
    | _ => cases hkind

theorem ofParams_of_inverted {min max : UInt64} (hreads : Reads name params (.between min max))
    (h : max < min) :
    ofParams .strict name params = .error (.illegalFilter name (.invertedBounds min max)) := by
  obtain rfl : FilterName.between = name := hreads.filterName_eq
  cases hreads with
  | between hlow hhigh =>
    simp only [ofParams, sizeParam_of_writes hlow, sizeParam_of_writes hhigh, bind, Except.bind]
    exact if_pos ⟨h, rfl⟩

theorem ofParams_of_reads (h : Reads name params f) (hordered : f.Ordered rule) :
    ofParams rule name params = .ok f := by
  cases h with
  | greaterThan hn | smallerThan hn =>
    rw [ofParams, sizeParam_of_writes hn]
    rfl
  | @between low high min max hlow hhigh =>
    simp only [ofParams, sizeParam_of_writes hlow, sizeParam_of_writes hhigh, bind, Except.bind]
    refine if_neg ?_
    rintro ⟨hlt, hrule⟩
    exact UInt64.not_lt.2 (hordered hrule min max rfl) hlt
  | file | contains | startsWith | endsWith | all => rfl
  | writable wanted | executable wanted | hidden wanted =>
    rw [ofParams, boolParam_of_answer]
    rfl

/-- Parameters are read as their verdict. -/
theorem ofParams_of_verdict {result : Except Rejection Filter}
    (h : Verdict rule name params result) : ofParams rule name params = result := by
  cases h with
  | wrongParamCount h => exact ofParams_of_count h
  | invalidParam hcount hparams hfront h =>
    subst hparams
    exact ofParams_of_refused hcount hfront h
  | invertedBounds hreads hrule h =>
    subst hrule
    exact ofParams_of_inverted hreads h
  | accepted hreads hordered => exact ofParams_of_reads hreads hordered

theorem ofParams_eq_ok_iff :
    ofParams rule name params = .ok f ↔ Reads name params f ∧ f.Ordered rule := by
  refine ⟨fun h => ?_, fun ⟨hreads, hordered⟩ => ofParams_of_reads hreads hordered⟩
  obtain ⟨result, hverdict⟩ := exists_verdict rule name params
  rw [ofParams_of_verdict hverdict] at h
  subst h
  cases hverdict with
  | accepted hreads hordered => exact ⟨hreads, hordered⟩

/-- Parameters have one filter's values at most. -/
theorem Reads.unique {g : Filter} (hf : Reads name params f) (hg : Reads name params g) :
    f = g := by
  have hread := ofParams_of_reads hf f.ordered_lax
  rw [ofParams_of_reads hg g.ordered_lax] at hread
  exact (Except.ok.inj hread).symm

/-! ### Sizes -/

/-- The sizes that a filter compares with. -/
def sizes : Filter → List UInt64
  | .greaterThan n | .smallerThan n => [n]
  | .between min max => [min, max]
  | .file _ | .contains _ | .startsWith _ | .endsWith _ | .writable _ | .executable _ | .hidden _
  | .all => []

/-- Parameters that are sizes are read one by one. -/
theorem reads_iff_of_size (hkind : name.paramKind = .size) :
    Reads name params f ↔
      f.filterName = name ∧ params.map Size.ofToken = f.sizes.map Except.ok := by
  constructor
  · intro h
    refine ⟨h.filterName_eq, ?_⟩
    cases h with
    | greaterThan h | smallerThan h => rw [List.map_singleton, Size.ofToken_of_writes h]; rfl
    | between hlow hhigh =>
      rw [List.map_cons, List.map_singleton, Size.ofToken_of_writes hlow,
        Size.ofToken_of_writes hhigh]
      rfl
    | file | contains | startsWith | endsWith | writable | executable | hidden | all => cases hkind
  · rintro ⟨rfl, hread⟩
    cases f with
    | greaterThan n =>
      obtain ⟨token, rfl, htoken⟩ := List.map_eq_singleton_iff.1 hread
      exact .greaterThan (Size.ofToken_eq_ok_iff.1 htoken)
    | smallerThan n =>
      obtain ⟨token, rfl, htoken⟩ := List.map_eq_singleton_iff.1 hread
      exact .smallerThan (Size.ofToken_eq_ok_iff.1 htoken)
    | between min max =>
      obtain ⟨low, rest, rfl, hlow, hrest⟩ := List.map_eq_cons_iff.1 hread
      obtain ⟨high, rfl, hhigh⟩ := List.map_eq_singleton_iff.1 hrest
      exact .between (Size.ofToken_eq_ok_iff.1 hlow) (Size.ofToken_eq_ok_iff.1 hhigh)
    | file | contains | startsWith | endsWith | writable | executable | hidden | all => cases hkind

/-- Sizes of any length are read exactly. A token is read as the number that its digits write, if
that is below 2 to the power 64; it is refused as negative where digits that are not all zeros stand
behind a minus sign, and as invalid where it is neither; and what refuses it quotes it as it stands.
A size in decimal digits is read back. A filter that takes sizes reads all its parameters like this,
and the leftmost one that is refused decides. -/
theorem sizes_read_exactly :
    (∀ token : String,
      (∀ n, Size.ofToken token = .ok n ↔ Size.Writes token.toList n) ∧
      (Size.ofToken token = .error (.negativeSize token) ↔ Size.IsNegative token.toList) ∧
      (Size.ofToken token = .error (.invalidSize token) ↔
        ¬Size.IsNegative token.toList ∧ ∀ n, ¬Size.Writes token.toList n) ∧
      ∀ fault, Size.ofToken token = .error fault →
        fault = .negativeSize token ∨ fault = .invalidSize token) ∧
    (∀ n : UInt64, Size.ofToken (Text.Decimal.write n.toNat) = .ok n) ∧
    ∀ (rule : BoundsRule) (name : FilterName) (params : List String), name.paramKind = .size →
      (∀ f, ofParams rule name params = .ok f ↔
        f.filterName = name ∧ f.Ordered rule ∧
          params.map Size.ofToken = f.sizes.map Except.ok) ∧
      ∀ front token back fault, params = front ++ token :: back → params.length = name.arity →
        (∀ t ∈ front, ∃ n, Size.ofToken t = .ok n) → Size.ofToken token = .error fault →
          ofParams rule name params = .error (.illegalFilter name fault) := by
  refine ⟨fun token => ⟨fun n => Size.ofToken_eq_ok_iff, ?_, ?_, fun fault h => ?_⟩,
    fun n => Size.ofToken_of_writes (Size.writes_write n),
    fun rule name params hkind => ⟨fun f => ?_, ?_⟩⟩
  · simp [Size.ofToken_eq_error_iff, Size.refused_iff]
  · simp [Size.ofToken_eq_error_iff, Size.refused_iff]
  · rw [Size.ofToken_eq_error_iff, Size.refused_iff] at h
    exact h.imp And.left And.left
  · rw [ofParams_eq_ok_iff, reads_iff_of_size hkind, and_assoc, and_congr_right_iff]
    exact fun _ => and_comm
  · rintro front token back fault rfl hcount hfront htoken
    refine ofParams_of_refused hcount (fun t ht => ?_)
      (.size hkind (Size.ofToken_eq_error_iff.1 htoken))
    exact (FilterName.takes_iff_of_size hkind).2 (hfront t ht)

/-- The largest size behind zeros, and the number after it. -/
example :
    Size.ofToken "+00000000000000000000018446744073709551615" = .ok 18446744073709551615 ∧
      Size.ofToken "18446744073709551616" = .error (.invalidSize "18446744073709551616") := by
  decide

end Filter

end FileSelection
