import Trust.Identity.DidGrammar

/-!
# The components of a parsed identifier

The variables of the scanner are determined by its state and by the components
that it has read so far, and these components with their delimiters are the text
up to the index.  Each turn of the loop extends the last component or starts the
next one.
-/

namespace Trust.Did

open Trust.Lib Trust.Lib.Grammar
open Computability

structure Parts where
  method : GoString
  id : GoString
  path : GoString := []
  query : Option GoString := none
  fragment : Option GoString := none

def mark (b : UInt8) : Option GoString → GoString
  | none => []
  | some w => b :: w

namespace Parts

def idStart (p : Parts) : ℕ := 5 + p.method.length

def idEnd (p : Parts) : ℕ := p.idStart + p.id.length

def pathEnd (p : Parts) : ℕ := p.idEnd + p.path.length

def queryEnd (p : Parts) : ℕ := p.pathEnd + (mark 63 p.query).length

def text (p : Parts) : GoString :=
  scheme ++ p.method ++ [58] ++ p.id ++ p.path ++ mark 63 p.query ++ mark 35 p.fragment

/-- The variables of the scanner that has read the components. -/
def scan (p : Parts) (state : State) : Scan where
  state := state
  methodEnd := 4 + p.method.length
  idStart := p.idStart
  idEnd := if state = .id then -1 else p.idEnd
  pathStart := if p.path = [] then -1 else p.idEnd
  queryStart := if p.query = none then -1 else p.pathEnd + 1
  fragmentStart := if p.fragment = none then -1 else p.queryEnd + 1
  url := decide (state ≠ .id)

/-- The component of the state has been started, and none after it. -/
def At (p : Parts) : State → Prop
  | .method => False
  | .id => p.path = [] ∧ p.query = none ∧ p.fragment = none
  | .path => p.id ≠ [] ∧ p.path ≠ [] ∧ p.query = none ∧ p.fragment = none
  | .query => p.id ≠ [] ∧ p.query ≠ none ∧ p.fragment = none
  | .fragment => p.id ≠ [] ∧ p.fragment ≠ none

end Parts

def isIDPart (c : UInt8) : Bool := isIDByte c || is 58 c

def isPathByte (c : UInt8) : Bool := isPcharByte c || is 47 c

structure Parts.Lawful (p : Parts) : Prop where
  method : p.method ∈ methodName
  id : p.id ∈ (unit isIDPart)∗
  path : p.path ∈ (unit isPathByte)∗
  query : ∀ q ∈ p.query, q ∈ (unit isQueryByte)∗
  fragment : ∀ f ∈ p.fragment, f ∈ (unit isQueryByte)∗

/-! ## One turn of the loop -/

def State.isByte : State → UInt8 → Bool
  | .method => isMethodChar
  | .id => isIDPart
  | .path => isPathByte
  | .query => isQueryByte
  | .fragment => isQueryByte

theorem take_succ {s : GoString} {i : ℕ} {c : UInt8} (hc : s[i]? = some c) :
    s.take (i + 1) = s.take i ++ [c] := by
  rw [List.take_add_one, hc]
  rfl

theorem mem_unit_of_byte {p : UInt8 → Bool} {c : UInt8} (h : p c = true) : [c] ∈ unit p :=
  Or.inl ⟨c, h, rfl⟩

section Turn

variable {s : GoString} {i last : ℕ} {c : UInt8} {m m' : Scan}

def Goes (p : UInt8 → Bool) (s : GoString) (i last : ℕ) (m m' : Scan) : Prop :=
  m' = m ∧ ∃ u ∈ unit p, s.take (last + 1) = s.take i ++ u

theorem goes_of_byte {p : UInt8 → Bool} (hc : s[i]? = some c) (hp : p c = true) :
    Goes p s i i m m :=
  ⟨rfl, [c], mem_unit_of_byte hp, take_succ hc⟩

theorem goes_of_escapedOr {mask : UInt8} {p : UInt8 → Bool} (hc : s[i]? = some c)
    (hp : inClass c mask = true → p c = true)
    (h : escapedOr c s i mask m = .ok (last, m')) : Goes p s i last m m' := by
  by_cases h37 : c = 37
  · subst h37
    rw [escapedOr, validEscapedOr_percent] at h
    rcases hab : s.drop (i + 1) with _ | ⟨a, _ | ⟨b, r⟩⟩
    · simp [hab] at h
    · simp [hab] at h
    · simp only [hab] at h
      by_cases hhex : (isHexDig a && isHexDig b) = true
      · simp only [if_pos hhex, Outcome.ok.injEq, Prod.mk.injEq] at h
        obtain ⟨rfl, rfl⟩ := h
        obtain ⟨ha, hb⟩ := Bool.and_eq_true_iff.mp hhex
        refine ⟨rfl, [37, a, b], Or.inr ?_, ?_⟩
        · exact ⟨[37], ⟨37, rfl, rfl⟩, [a, b], ⟨[a], ⟨a, ha, rfl⟩, [b], ⟨b, hb, rfl⟩, rfl⟩, rfl⟩
        · have hdrop : s.drop i = 37 :: a :: b :: r := by rw [drop_eq_cons hc, hab]
          rw [show i + 2 + 1 = i + 3 from rfl, List.take_add, hdrop]
          rfl
      · rw [if_neg hhex] at h
        cases h
  · rw [escapedOr, validEscapedOr, if_pos h37] at h
    cases hclass : inClass c mask with
    | false => simp [hclass] at h
    | true =>
        simp only [hclass, Outcome.ok.injEq, Prod.mk.injEq] at h
        obtain ⟨rfl, rfl⟩ := h
        exact goes_of_byte hc (hp hclass)

end Turn

namespace Parts

variable {p : Parts} {state : State} {u : GoString}

theorem state_scan (p : Parts) (state : State) : (p.scan state).state = state := rfl

section Lengths

variable (p : Parts)

theorem length_head : (scheme ++ p.method ++ [58]).length = p.idStart := by
  simp only [scheme, idStart, List.length_append, List.length_cons, List.length_nil]
  omega

theorem length_toPath : (scheme ++ p.method ++ [58] ++ p.id ++ p.path).length = p.pathEnd := by
  rw [List.length_append, List.length_append, length_head]
  rfl

theorem length_toQuery :
    (scheme ++ p.method ++ [58] ++ p.id ++ p.path ++ mark 63 p.query).length = p.queryEnd := by
  rw [List.length_append, length_toPath]
  rfl

theorem length_text : p.text.length = p.queryEnd + (mark 35 p.fragment).length := by
  rw [text, List.length_append, length_toQuery]

end Lengths

def extend (p : Parts) (u : GoString) : State → Parts
  | .method => p
  | .id => { p with id := p.id ++ u }
  | .path => { p with path := p.path ++ u }
  | .query => { p with query := p.query.map (· ++ u) }
  | .fragment => { p with fragment := p.fragment.map (· ++ u) }

theorem text_extend (h : p.At state) : (p.extend u state).text = p.text ++ u := by
  cases state with
  | method => exact h.elim
  | id =>
      obtain ⟨hpath, hquery, hfragment⟩ := h
      simp [text, extend, hpath, hquery, hfragment, mark]
  | path =>
      obtain ⟨-, -, hquery, hfragment⟩ := h
      simp [text, extend, hquery, hfragment, mark]
  | query =>
      obtain ⟨-, hquery, hfragment⟩ := h
      obtain ⟨q, hq⟩ := Option.ne_none_iff_exists'.mp hquery
      simp [text, extend, hq, hfragment, mark]
  | fragment =>
      obtain ⟨-, hfragment⟩ := h
      obtain ⟨f, hf⟩ := Option.ne_none_iff_exists'.mp hfragment
      simp [text, extend, hf, mark]

/-- The length of the component that is being read is in no variable. -/
theorem scan_extend (h : p.At state) : (p.extend u state).scan state = p.scan state := by
  cases state with
  | method => exact h.elim
  | id =>
      obtain ⟨hpath, hquery, hfragment⟩ := h
      simp [scan, extend, idStart, hpath, hquery, hfragment]
  | path =>
      obtain ⟨-, hpath, hquery, hfragment⟩ := h
      simp [scan, extend, idStart, idEnd, hpath, hquery, hfragment]
  | query =>
      obtain ⟨-, hquery, hfragment⟩ := h
      simp [scan, extend, idStart, idEnd, pathEnd, hquery, hfragment]
  | fragment =>
      obtain ⟨-, hfragment⟩ := h
      simp [scan, extend, idStart, idEnd, pathEnd, queryEnd, hfragment]

theorem at_extend (h : p.At state) : (p.extend u state).At state := by
  cases state with
  | method => exact h
  | id => exact h
  | path => exact ⟨h.1, by simp [extend, h.2.1], h.2.2⟩
  | query => exact ⟨h.1, by simp [extend, h.2.1], h.2.2⟩
  | fragment => exact ⟨h.1, by simp [extend, h.2]⟩

end Parts

theorem append_mem_kstar {l : Language UInt8} {w u : GoString} (hw : w ∈ l∗) (hu : u ∈ l) :
    w ++ u ∈ l∗ := by
  obtain ⟨parts, rfl, hparts⟩ := hw
  refine ⟨parts ++ [u], by simp, ?_⟩
  simpa [or_imp, forall_and] using ⟨hparts, hu⟩

namespace Parts.Lawful

variable {p : Parts} {u : GoString}

theorem extend (h : p.Lawful) {state : State} (hu : u ∈ unit state.isByte) :
    (p.extend u state).Lawful := by
  cases state with
  | method => exact h
  | id => exact { h with id := append_mem_kstar h.id hu }
  | path => exact { h with path := append_mem_kstar h.path hu }
  | query =>
      refine { h with query := ?_ }
      intro w hw
      obtain ⟨q, hq, rfl⟩ := Option.map_eq_some_iff.mp hw
      exact append_mem_kstar (h.query q hq) hu
  | fragment =>
      refine { h with fragment := ?_ }
      intro w hw
      obtain ⟨f, hf, rfl⟩ := Option.map_eq_some_iff.mp hw
      exact append_mem_kstar (h.fragment f hf) hu

theorem startQuery (h : p.Lawful) : { p with query := some [] }.Lawful := by
  refine { h with query := ?_ }
  rintro q ⟨⟩
  exact Language.nil_mem_kstar _

theorem startFragment (h : p.Lawful) : { p with fragment := some [] }.Lawful := by
  refine { h with fragment := ?_ }
  rintro f ⟨⟩
  exact Language.nil_mem_kstar _

theorem startPath (h : p.Lawful) : { p with path := [47] }.Lawful :=
  { h with path := append_mem_kstar (Language.nil_mem_kstar _) (mem_unit_of_byte rfl) }

end Parts.Lawful

inductive Reached (t : GoString) (m : Scan) : Prop
  | method (w : GoString) (hw : w ∈ (symbol isMethodChar)∗) (hm : m = {}) (htext : t = scheme ++ w)
  | parts (p : Parts) (state : State) (hp : p.Lawful) (hat : p.At state) (hm : m = p.scan state)
      (htext : t = p.text)

theorem Goes.reached {s : GoString} {i last : ℕ} {m m' : Scan} {p : Parts} {state : State}
    (h : Goes state.isByte s i last m m') (hp : p.Lawful) (hat : p.At state)
    (hm : m = p.scan state) (htext : s.take i = p.text) : Reached (s.take (last + 1)) m' := by
  obtain ⟨rfl, u, hu, htake⟩ := h
  refine .parts (p.extend u state) state (hp.extend hu) (Parts.at_extend hat) ?_ ?_
  · rw [Parts.scan_extend hat, hm]
  · rw [Parts.text_extend hat, htake, htext]

section Turn

variable {s : GoString} {i last : ℕ} {c : UInt8} {m' : Scan}

theorem reached_step_method {w : GoString} (hw : w ∈ (symbol isMethodChar)∗)
    (hc : s[i]? = some c) (htext : s.take i = scheme ++ w)
    (h : step s i c {} = .ok (last, m')) : Reached (s.take (last + 1)) m' := by
  obtain ⟨hi, -⟩ := List.getElem?_eq_some_iff.mp hc
  have hlen : i = 4 + w.length := by
    have hlen := congrArg List.length htext
    rwa [List.length_take_of_le hi.le, List.length_append] at hlen
  have hnext := take_succ hc
  rw [htext] at hnext
  simp only [step] at h
  split_ifs at h with h58 hi4 hclass
  · cases h
    subst h58
    have hne : w ≠ [] := by
      rintro rfl
      exact hi4 hlen
    have hmethod : w ∈ methodName := by
      rw [← Language.one_add_self_mul_kstar_eq_kstar, Language.mem_add] at hw
      exact hw.resolve_left hne
    refine .parts ⟨w, [], [], none, none⟩ .id ⟨hmethod, ?_, ?_, by simp, by simp⟩ ⟨rfl, rfl, rfl⟩
      ?_ ?_
    · exact Language.nil_mem_kstar _
    · exact Language.nil_mem_kstar _
    · simp [Parts.scan, Parts.idStart, hlen]
      omega
    · simpa [Parts.text, mark] using hnext
  · cases h
    have hchar : isMethodChar c = true := by simpa [inClass_charMethod] using hclass
    refine .method (w ++ [c]) (append_mem_kstar hw ⟨c, hchar, rfl⟩) rfl ?_
    rw [hnext, List.append_assoc]

variable {p : Parts} (hp : p.Lawful) (hc : s[i]? = some c) (htext : s.take i = p.text)

include htext hc

theorem length_eq_index : p.queryEnd + (mark 35 p.fragment).length = i := by
  obtain ⟨hi, -⟩ := List.getElem?_eq_some_iff.mp hc
  rw [← Parts.length_text, ← htext, List.length_take_of_le hi.le]

include hp

theorem reached_step_id (hat : p.At .id) (h : stepID s i c (p.scan .id) = .ok (last, m')) :
    Reached (s.take (last + 1)) m' := by
  have hlen := length_eq_index hc htext
  have hnext := take_succ hc
  obtain ⟨hpath, hquery, hfragment⟩ := hat
  simp only [Parts.queryEnd, Parts.pathEnd, hpath, hquery, hfragment, mark, List.length_nil,
    add_zero] at hlen
  rw [htext, Parts.text, hpath, hquery, hfragment] at hnext
  have hid : ¬ ((i : ℤ) = p.idStart ∨ s[i - 1]? = some 58) → p.id ≠ [] := by
    intro hne hnil
    apply hne
    rw [← hlen, Parts.idEnd, hnil]
    exact Or.inl rfl
  rw [stepID] at h
  split_ifs at h with hdelim hempty hslash hauthority hquestion h58
  · cases h
    subst hslash
    refine .parts { p with path := [47] } .path hp.startPath
      ⟨hid hempty, List.cons_ne_nil _ _, hquery, hfragment⟩ ?_ ?_
    · simp [Parts.scan, Parts.idStart, Parts.idEnd, hpath, hquery, hfragment, ← hlen]
    · simpa [Parts.text, hquery, hfragment, mark] using hnext
  · cases h
    subst hquestion
    refine .parts { p with query := some [] } .query hp.startQuery
      ⟨hid hempty, Option.some_ne_none _, hfragment⟩ ?_ ?_
    · simp [Parts.scan, Parts.idStart, Parts.idEnd, Parts.pathEnd, hpath, hfragment, ← hlen]
    · simpa [Parts.text, hpath, hfragment, mark] using hnext
  · cases h
    obtain rfl : c = 35 := by tauto
    refine .parts { p with fragment := some [] } .fragment hp.startFragment
      ⟨hid hempty, Option.some_ne_none _⟩ ?_ ?_
    · simp [Parts.scan, Parts.idStart, Parts.idEnd, Parts.pathEnd, Parts.queryEnd, hpath, hquery,
        mark, ← hlen]
    · simpa [Parts.text, hpath, hquery, mark] using hnext
  · cases h
    subst h58
    exact (goes_of_byte hc rfl : Goes State.id.isByte _ _ _ _ _).reached hp
      ⟨hpath, hquery, hfragment⟩ rfl htext
  · have hgoes : Goes State.id.isByte s i last (p.scan .id) m' :=
      goes_of_escapedOr hc (fun hclass ↦ by
        rw [inClass_charID] at hclass
        simp [State.isByte, isIDPart, hclass]) h
    exact hgoes.reached hp ⟨hpath, hquery, hfragment⟩ rfl htext

theorem reached_step_path (hat : p.At .path) (h : step s i c (p.scan .path) = .ok (last, m')) :
    Reached (s.take (last + 1)) m' := by
  have hlen := length_eq_index hc htext
  have hnext := take_succ hc
  obtain ⟨hid, hpath, hquery, hfragment⟩ := hat
  simp only [Parts.queryEnd, hquery, hfragment, mark, List.length_nil, add_zero] at hlen
  rw [htext, Parts.text, hquery, hfragment] at hnext
  simp only [step, Parts.state_scan] at h
  split_ifs at h with hquestion hhash hplain
  · cases h
    subst hquestion
    refine .parts { p with query := some [] } .query hp.startQuery
      ⟨hid, Option.some_ne_none _, hfragment⟩ ?_ ?_
    · simp [Parts.scan, Parts.idStart, Parts.idEnd, Parts.pathEnd, hfragment, ← hlen]
    · simpa [Parts.text, hfragment, mark] using hnext
  · cases h
    subst hhash
    refine .parts { p with fragment := some [] } .fragment hp.startFragment
      ⟨hid, Option.some_ne_none _⟩ ?_ ?_
    · simp [Parts.scan, Parts.idStart, Parts.idEnd, Parts.pathEnd, Parts.queryEnd, hquery, mark,
        ← hlen]
    · simpa [Parts.text, hquery, mark] using hnext
  · cases h
    have hbyte : State.path.isByte c = true := by
      rcases hplain with rfl | rfl | rfl <;> rfl
    exact (goes_of_byte hc hbyte).reached hp ⟨hid, hpath, hquery, hfragment⟩ rfl htext
  · have hgoes := goes_of_escapedOr (p := State.path.isByte) hc (fun hclass ↦ by
      rw [inClass_eq_isPcharByte c hplain] at hclass
      simp [State.isByte, isPathByte, hclass]) h
    exact hgoes.reached hp ⟨hid, hpath, hquery, hfragment⟩ rfl htext

theorem reached_step_query (hat : p.At .query)
    (h : step s i c (p.scan .query) = .ok (last, m')) : Reached (s.take (last + 1)) m' := by
  have hlen := length_eq_index hc htext
  have hnext := take_succ hc
  obtain ⟨hid, hquery, hfragment⟩ := hat
  simp only [hfragment, mark, List.length_nil, add_zero] at hlen
  rw [htext, Parts.text, hfragment] at hnext
  simp only [step, Parts.state_scan] at h
  split_ifs at h with hhash hplain
  · cases h
    subst hhash
    refine .parts { p with fragment := some [] } .fragment hp.startFragment
      ⟨hid, Option.some_ne_none _⟩ ?_ ?_
    · simp [Parts.scan, Parts.idStart, Parts.idEnd, Parts.pathEnd, Parts.queryEnd, ← hlen]
    · simpa [Parts.text, mark] using hnext
  · cases h
    have hbyte : State.query.isByte c = true := by
      rcases hplain with rfl | rfl | rfl | rfl <;> rfl
    exact (goes_of_byte hc hbyte).reached hp ⟨hid, hquery, hfragment⟩ rfl htext
  · have hgoes := goes_of_escapedOr (p := State.query.isByte) hc (fun hclass ↦ by
      rwa [inClass_eq_isQueryByte c hplain] at hclass) h
    exact hgoes.reached hp ⟨hid, hquery, hfragment⟩ rfl htext

theorem reached_step_fragment (hat : p.At .fragment)
    (h : step s i c (p.scan .fragment) = .ok (last, m')) : Reached (s.take (last + 1)) m' := by
  simp only [step, Parts.state_scan] at h
  split_ifs at h with hplain
  · cases h
    have hbyte : State.fragment.isByte c = true := by
      rcases hplain with rfl | rfl | rfl | rfl <;> rfl
    exact (goes_of_byte hc hbyte).reached hp hat rfl htext
  · have hgoes := goes_of_escapedOr (p := State.fragment.isByte) hc (fun hclass ↦ by
      rwa [inClass_eq_isQueryByte c hplain] at hclass) h
    exact hgoes.reached hp hat rfl htext

omit hp htext in
theorem reached_step {m : Scan} (hreached : Reached (s.take i) m)
    (h : step s i c m = .ok (last, m')) :
    Reached (s.take (last + 1)) m' := by
  cases hreached with
  | method w hw hm htext =>
      subst hm
      exact reached_step_method hw hc htext h
  | parts p state hp hat hm htext =>
      subst hm
      cases state with
      | method => exact hat.elim
      | id => exact reached_step_id hp hc htext hat h
      | path => exact reached_step_path hp hc htext hat h
      | query => exact reached_step_query hp hc htext hat h
      | fragment => exact reached_step_fragment hp hc htext hat h

end Turn

theorem exists_finish_of_run {s : GoString} {fuel i : ℕ} {m : Scan} {d : DID}
    (h : run s fuel i m = .ok d) (hreached : Reached (s.take i) m) :
    ∃ m', finish s m' = .ok d ∧ Reached s m' := by
  induction fuel generalizing i m with
  | zero =>
      rw [run] at h
      cases hc : s[i]? with
      | some c =>
          rw [hc] at h
          cases h
      | none =>
          rw [hc] at h
          rw [List.take_of_length_le (List.getElem?_eq_none_iff.mp hc)] at hreached
          exact ⟨m, h, hreached⟩
  | succ fuel ih =>
      cases hc : s[i]? with
      | some c =>
          rw [run_succ hc, Outcome.bind_eq_ok_iff] at h
          obtain ⟨⟨last, m'⟩, hstep, h⟩ := h
          exact ih h (reached_step hc hreached hstep)
      | none =>
          rw [run, hc] at h
          rw [List.take_of_length_le (List.getElem?_eq_none_iff.mp hc)] at hreached
          exact ⟨m, h, hreached⟩

/-! ## The cuts at the end -/

theorem slice_append {s a b c : GoString} {lo hi : ℤ} (hs : s = a ++ b ++ c)
    (hlo : lo = a.length) (hhi : hi = a.length + b.length) :
    (slice s lo hi : Outcome Err GoString) = .ok b := by
  subst hs hlo hhi
  have hslice := slice_of_le (ε := Err) (a ++ b ++ c) a.length (a.length + b.length) (by omega)
    (by simp)
  rw [Nat.cast_add] at hslice
  rw [hslice]
  simp

namespace Parts

variable (p : Parts) (state : State)

theorem slice_method : (slice p.text 4 (p.scan state).methodEnd : Outcome Err GoString) =
    .ok p.method := by
  refine slice_append (a := scheme) (c := [58] ++ p.id ++ p.path ++ mark 63 p.query ++
    mark 35 p.fragment) ?_ rfl rfl
  simp [text]

theorem idStop_scan {p : Parts} {state : State} (h : p.At state) :
    (p.scan state).idStop p.text = p.idEnd := by
  by_cases hstate : state = .id
  · subst hstate
    obtain ⟨hpath, hquery, hfragment⟩ := h
    simp [Scan.idStop, scan, length_text, queryEnd, pathEnd, hpath, hquery, hfragment, mark]
  · simp only [Scan.idStop, scan, if_neg hstate]
    exact if_neg (by omega)

theorem slice_id {p : Parts} {state : State} (h : p.At state) :
    (slice p.text (p.scan state).idStart ((p.scan state).idStop p.text) :
      Outcome Err GoString) = .ok p.id := by
  rw [idStop_scan h]
  refine slice_append (a := scheme ++ p.method ++ [58]) (c := p.path ++ mark 63 p.query ++
    mark 35 p.fragment) (by simp [text]) ?_ ?_
  · rw [length_head]
    rfl
  · rw [length_head]
    rfl

theorem queryStop_scan :
    (if 0 ≤ (p.scan state).fragmentStart then (p.scan state).fragmentStart - 1
      else (p.text.length : ℤ)) = p.queryEnd := by
  cases hfragment : p.fragment with
  | none =>
      have hstart : (p.scan state).fragmentStart = -1 := if_pos hfragment
      rw [hstart, if_neg (by omega), length_text, hfragment]
      rfl
  | some f =>
      have hstart : (p.scan state).fragmentStart = p.queryEnd + 1 := if_neg (by simp [hfragment])
      rw [hstart, if_pos (by omega), add_sub_cancel_right]

theorem pathStop_scan :
    (if 0 ≤ (p.scan state).queryStart then (p.scan state).queryStart - 1
      else if 0 ≤ (p.scan state).fragmentStart then (p.scan state).fragmentStart - 1
      else (p.text.length : ℤ)) = p.pathEnd := by
  cases hquery : p.query with
  | none =>
      have hstart : (p.scan state).queryStart = -1 := if_pos hquery
      rw [hstart, if_neg (by omega), queryStop_scan, queryEnd, hquery]
      rfl
  | some q =>
      have hstart : (p.scan state).queryStart = p.pathEnd + 1 := if_neg (by simp [hquery])
      rw [hstart, if_pos (by omega), add_sub_cancel_right]

theorem pathOf_scan : (p.scan state).pathOf p.text = .ok p.path := by
  by_cases hpath : p.path = []
  · simp [Scan.pathOf, scan, hpath]
  · have hstart : (p.scan state).pathStart = p.idEnd := if_neg hpath
    rw [Scan.pathOf, pathStop_scan, hstart, if_pos (by omega)]
    refine slice_append (a := scheme ++ p.method ++ [58] ++ p.id) (c := mark 63 p.query ++
      mark 35 p.fragment) (by simp [text]) ?_ ?_
    · rw [List.length_append, length_head]
      rfl
    · rw [List.length_append, length_head]
      rfl

theorem queryOf_scan : (p.scan state).queryOf p.text = .ok (p.query.getD []) := by
  cases hquery : p.query with
  | none => simp [Scan.queryOf, scan, hquery]
  | some q =>
      have hstart : (p.scan state).queryStart = p.pathEnd + 1 := if_neg (by simp [hquery])
      rw [Scan.queryOf, queryStop_scan, hstart, if_pos (by omega)]
      refine slice_append (a := scheme ++ p.method ++ [58] ++ p.id ++ p.path ++ [63])
        (c := mark 35 p.fragment) (by simp [text, hquery, mark]) ?_ ?_
      · rw [List.length_append, length_toPath]
        rfl
      · rw [List.length_append, length_toPath, queryEnd, hquery, mark]
        simp
        omega

theorem fragmentOf_scan : (p.scan state).fragmentOf p.text = .ok (p.fragment.getD []) := by
  cases hfragment : p.fragment with
  | none => simp [Scan.fragmentOf, scan, hfragment]
  | some f =>
      have hstart : (p.scan state).fragmentStart = p.queryEnd + 1 := if_neg (by simp [hfragment])
      rw [Scan.fragmentOf, hstart, if_pos (by omega), sliceFrom]
      have htext : p.text = scheme ++ p.method ++ [58] ++ p.id ++ p.path ++ mark 63 p.query ++
          [35] ++ f ++ [] := by
        simp [text, hfragment, mark]
      refine slice_append htext ?_ ?_
      · rw [List.length_append, length_toQuery]
        rfl
      · rw [List.length_append, length_toQuery, length_text, hfragment, mark]
        simp
        omega

def toDID (p : Parts) (s : GoString) (state : State) : DID :=
  ⟨s, p.method, p.id, p.path, p.query.getD [], p.fragment.getD [], decide (state ≠ .id)⟩

theorem finish_scan {p : Parts} {state : State} {d : DID} (hat : p.At state)
    (h : finish p.text (p.scan state) = .ok d) : p.id ≠ [] ∧ d = p.toDID p.text state := by
  have hmethod : state ≠ .method := by
    rintro rfl
    exact hat
  rw [finish, state_scan, if_neg hmethod] at h
  split_ifs at h with hid
  rw [slice_method, slice_id hat, pathOf_scan, queryOf_scan, fragmentOf_scan] at h
  simp only [Outcome.ok_bind] at h
  cases h
  refine ⟨?_, rfl⟩
  cases state with
  | method => exact hat.elim
  | id =>
      obtain ⟨hpath, hquery, hfragment⟩ := hat
      rintro hnil
      apply hid
      left
      simp [scan, length_text, queryEnd, pathEnd, idEnd, hnil, hpath, hquery, hfragment, mark]
  | path => exact hat.1
  | query => exact hat.1
  | fragment => exact hat.1

end Parts

theorem exists_parts_at_of_parseBare {s : GoString} {d : DID} (h : parseBare s = .ok d) :
    ∃ p : Parts, ∃ state, p.Lawful ∧ p.At state ∧ p.id ≠ [] ∧ s = p.text ∧ d = p.toDID s state := by
  rw [parseBare] at h
  split_ifs at h with hscheme
  obtain ⟨w, rfl⟩ := List.isPrefixOf_iff_prefix.mp hscheme
  have hstart : Reached ((scheme ++ w).take 4) {} :=
    .method [] (Language.nil_mem_kstar _) rfl rfl
  obtain ⟨m, hfinish, hreached⟩ := exists_finish_of_run h hstart
  cases hreached with
  | method v hv hm htext =>
      subst hm
      cases hfinish
  | parts p state hp hat hm htext =>
      subst hm
      rw [htext] at hfinish ⊢
      obtain ⟨hid, hd⟩ := Parts.finish_scan hat hfinish
      exact ⟨p, state, hp, hat, hid, rfl, hd⟩

/-- An accepted identifier is made of lawful components, and they are returned. -/
theorem exists_parts_of_parseBare {s : GoString} {d : DID} (h : parseBare s = .ok d) :
    ∃ p : Parts, ∃ state, p.Lawful ∧ p.id ≠ [] ∧ s = p.text ∧ d = p.toDID s state := by
  obtain ⟨p, state, hp, -, hrest⟩ := exists_parts_at_of_parseBare h
  exact ⟨p, state, hp, hrest⟩

/-! ## Where the query and the fragment begin -/

theorem mem_of_mem_unit {p : UInt8 → Bool} {w : GoString} (hw : w ∈ unit p) {c : UInt8}
    (hc : c ∈ w) : p c = true ∨ c = 37 ∨ isHexDig c = true := by
  rcases hw with ⟨b, hb, rfl⟩ | ⟨_, ⟨b, hb, rfl⟩, _, ⟨_, ⟨x, hx, rfl⟩, _, ⟨y, hy, rfl⟩, rfl⟩, rfl⟩
  · obtain rfl := List.mem_singleton.mp hc
    exact Or.inl hb
  · simp only [is, decide_eq_true_eq] at hb
    simp at hc
    rcases hc with rfl | rfl | rfl
    · exact Or.inr (Or.inl hb)
    · exact Or.inr (Or.inr hx)
    · exact Or.inr (Or.inr hy)

theorem mem_of_mem_units {p : UInt8 → Bool} {w : GoString} (hw : w ∈ (unit p)∗) {c : UInt8}
    (hc : c ∈ w) : p c = true ∨ c = 37 ∨ isHexDig c = true := by
  obtain ⟨parts, rfl, hparts⟩ := hw
  obtain ⟨u, hu, hc⟩ := List.mem_flatten.mp hc
  exact mem_of_mem_unit (hparts u hu) hc

theorem notMem_units {p : UInt8 → Bool} {w : GoString} (hw : w ∈ (unit p)∗) {c : UInt8}
    (hp : p c = false) (h37 : c ≠ 37) (hhex : isHexDig c = false) : c ∉ w := by
  intro hc
  rcases mem_of_mem_units hw hc with h | h | h
  · exact absurd (h.symm.trans hp) (by decide)
  · exact h37 h
  · exact absurd (h.symm.trans hhex) (by decide)

theorem mem_of_mem_methodName {w : GoString} (hw : w ∈ methodName) {c : UInt8} (hc : c ∈ w) :
    isMethodChar c = true := by
  rw [methodName] at hw
  obtain ⟨_, ⟨b, hb, rfl⟩, _, ⟨parts, rfl, hparts⟩, rfl⟩ := hw
  rcases List.mem_append.mp hc with hc | hc
  · obtain rfl := List.mem_singleton.mp hc
    exact hb
  · obtain ⟨u, hu, hc⟩ := List.mem_flatten.mp hc
    obtain ⟨a, ha, rfl⟩ := hparts u hu
    obtain rfl := List.mem_singleton.mp hc
    exact ha

theorem Parts.Lawful.notMem_toPath {p : Parts} (hp : p.Lawful) {b : UInt8}
    (hb : b = 35 ∨ b = 63) : b ∉ scheme ++ p.method ++ [58] ++ p.id ++ p.path := by
  have hmethod : b ∉ p.method := by
    intro hmem
    have hchar := mem_of_mem_methodName hp.method hmem
    rcases hb with rfl | rfl <;> exact absurd hchar (by decide)
  have hid : b ∉ p.id := by
    rcases hb with rfl | rfl <;> exact notMem_units hp.id (by decide) (by decide) (by decide)
  have hpath : b ∉ p.path := by
    rcases hb with rfl | rfl <;> exact notMem_units hp.path (by decide) (by decide) (by decide)
  have hscheme : b ∉ scheme ++ [58] := by
    rcases hb with rfl | rfl <;> decide
  simp only [List.mem_append, not_or] at hscheme ⊢
  exact ⟨⟨⟨⟨hscheme.1, hmethod⟩, hscheme.2⟩, hid⟩, hpath⟩

/-- A question mark stands before any number sign. -/
def HasQuery (s : GoString) : Prop := 63 ∈ s.takeWhile (· ≠ 35)

def HasFragment (s : GoString) : Prop := 35 ∈ s

instance (s : GoString) : Decidable (HasQuery s) := inferInstanceAs (Decidable (_ ∈ _))

instance (s : GoString) : Decidable (HasFragment s) := inferInstanceAs (Decidable (_ ∈ _))

namespace Parts.Lawful

variable {p : Parts} (hp : p.Lawful)
include hp

theorem notMem_toQuery :
    35 ∉ scheme ++ p.method ++ [58] ++ p.id ++ p.path ++ mark 63 p.query := by
  rw [List.mem_append, not_or]
  refine ⟨hp.notMem_toPath (Or.inl rfl), ?_⟩
  cases hquery : p.query with
  | none => exact List.not_mem_nil
  | some q =>
      have hq := notMem_units (c := 35) (hp.query q hquery) (by decide) (by decide) (by decide)
      simpa [mark] using hq

theorem takeWhile_text :
    p.text.takeWhile (· ≠ 35) =
      scheme ++ p.method ++ [58] ++ p.id ++ p.path ++ mark 63 p.query := by
  have hall : ∀ c ∈ scheme ++ p.method ++ [58] ++ p.id ++ p.path ++ mark 63 p.query,
      decide (c ≠ 35) = true := by
    intro c hc
    rw [decide_eq_true_eq]
    rintro rfl
    exact hp.notMem_toQuery hc
  rw [text, List.takeWhile_append_of_pos hall]
  cases p.fragment <;> simp [mark]

theorem hasQuery_text : HasQuery p.text ↔ p.query ≠ none := by
  rw [HasQuery, hp.takeWhile_text, List.mem_append,
    or_iff_right (hp.notMem_toPath (Or.inr rfl))]
  cases p.query <;> simp [mark]

theorem hasFragment_text : HasFragment p.text ↔ p.fragment ≠ none := by
  rw [HasFragment, text, List.mem_append, or_iff_right hp.notMem_toQuery]
  cases p.fragment <;> simp [mark]

end Parts.Lawful

theorem unit_isIDPart : unit isIDPart = idchar + symbol (is 58) := by
  have hsum : symbol isIDPart = symbol isIDByte + symbol (is 58) := by
    rw [symbol_add_symbol]
    rfl
  rw [unit, idchar, hsum]
  abel

theorem unit_isPathByte : unit isPathByte = pchar + symbol (is 47) := by
  have hsum : symbol isPathByte = symbol isPcharByte + symbol (is 47) := by
    rw [symbol_add_symbol]
    rfl
  rw [pchar_eq, unit, unit, hsum]
  abel

theorem mark_eq {b : UInt8} {w : Option GoString} {c : Prop} [Decidable c] (h : c ↔ w ≠ none) :
    mark b w = if c then b :: w.getD [] else [] := by
  cases w with
  | none => rw [if_neg (by simp [h]), mark]
  | some w => rw [if_pos (by simp [h]), mark, Option.getD_some]

/-- An accepted string is its components and their delimiters, in order, and each
component is made of its own characters. -/
theorem parse_components {s : GoString} {d : DID} (h : parse s = .ok d) :
    s = scheme ++ d.method ++ [58] ++ d.methodSpecificID ++ d.path ++
        (if HasQuery s then 63 :: d.query else []) ++
        (if HasFragment s then 35 :: d.fragment else []) ∧
      (d.method ∈ methodName ∧ d.methodSpecificID ∈ (idchar + symbol (is 58))∗ ∧
        d.path ∈ (pchar + symbol (is 47))∗ ∧ d.query ∈ query ∧ d.fragment ∈ fragment) ∧
      d.method ≠ [] ∧ d.methodSpecificID ≠ [] := by
  rw [parse, Outcome.mapError_eq_ok_iff] at h
  obtain ⟨p, state, hp, hid, hs, rfl⟩ := exists_parts_of_parseBare h
  subst hs
  have hoption : ∀ w : Option GoString, (∀ v ∈ w, v ∈ (unit isQueryByte)∗) → w.getD [] ∈ query := by
    intro w hw
    rw [query_eq]
    cases w with
    | none => exact Language.nil_mem_kstar _
    | some v => exact hw v rfl
  refine ⟨?_, ⟨hp.method, ?_, ?_, hoption _ hp.query, hoption _ hp.fragment⟩, ?_, hid⟩
  · nth_rewrite 1 [Parts.text]
    rw [mark_eq hp.hasQuery_text, mark_eq hp.hasFragment_text]
    rfl
  · rw [← unit_isIDPart]
    exact hp.id
  · rw [← unit_isPathByte]
    exact hp.path
  · have hmethod := hp.method
    intro hnil
    change p.method = [] at hnil
    rw [hnil, methodName] at hmethod
    exact nil_notMem_symbol_mul hmethod

def sampleURL : GoString :=
  scheme ++ [119, 101, 98, 58, 97, 58, 98, 47, 112, 63, 113, 35, 63]

theorem parse_components_sampleURL :
    ∃ d, parse sampleURL = .ok d ∧
      sampleURL = scheme ++ d.method ++ [58] ++ d.methodSpecificID ++ d.path ++
        (if HasQuery sampleURL then 63 :: d.query else []) ++
        (if HasFragment sampleURL then 35 :: d.fragment else []) ∧
      d.path = [47, 112] ∧ d.query = [113] ∧ d.fragment = [63] :=
  ⟨_, rfl, (parse_components rfl).1, rfl, rfl, rfl⟩

end Trust.Did
