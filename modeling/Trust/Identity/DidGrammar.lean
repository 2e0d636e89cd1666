import Trust.Lib.Grammar
import Trust.Identity.Did

/-!
# The scanner accepts the DID URL grammar

The rules of DID Core and of RFC 3986 as languages, and the language of what
each state of the scanner may still read.  Reading one byte, or a percent
triplet, moves from the language of a state to that of the next one; the
look-behind at the byte before decides whether the last segment of the
method-specific identifier is still empty.
-/

namespace Trust.Did

open Trust.Lib Trust.Lib.Grammar
open Computability

/-! ## The grammar -/

def isMethodChar (c : UInt8) : Bool := isLower c || isDigit c

def isIDByte (c : UInt8) : Bool := isAlpha c || isDigit c || is 46 c || is 45 c || is 95 c

def isUnreserved (c : UInt8) : Bool :=
  isAlpha c || isDigit c || is 45 c || is 46 c || is 95 c || is 126 c

/-- `"!" / "$" / "&" / "'" / "(" / ")" / "*" / "+" / "," / ";" / "="`. -/
def isSubDelim (c : UInt8) : Bool := decide (c ∈ [33, 36, 38, 39, 40, 41, 42, 43, 44, 59, 61])

def methodName : Language UInt8 := symbol isMethodChar * (symbol isMethodChar)∗

def idchar : Language UInt8 := symbol isIDByte + pctEncoded

/-- `*( *idchar ":" ) 1*idchar`. -/
def methodSpecificID : Language UInt8 := (idchar∗ * symbol (is 58))∗ * (idchar * idchar∗)

def did : Language UInt8 :=
  {scheme} * (methodName * (symbol (is 58) * methodSpecificID))

def pchar : Language UInt8 :=
  symbol isUnreserved + pctEncoded + symbol isSubDelim + symbol (is 58) + symbol (is 64)

def pathAbempty : Language UInt8 := (symbol (is 47) * pchar∗)∗

def query : Language UInt8 := (pchar + symbol (is 47) + symbol (is 63))∗

def fragment : Language UInt8 := (pchar + symbol (is 47) + symbol (is 63))∗

/-- The path of a DID URL: no authority may follow the identifier. -/
def path : Language UInt8 := {p | p ∈ pathAbempty ∧ ¬ [47, 47] <+: p}

/-- `[ "?" query ] [ "#" fragment ]`. -/
def suffix : Language UInt8 := (1 + symbol (is 63) * query) * (1 + symbol (is 35) * fragment)

/-! ## The classes of the table -/

def isPcharByte (c : UInt8) : Bool := isUnreserved c || isSubDelim c || is 58 c || is 64 c

def isQueryByte (c : UInt8) : Bool := isPcharByte c || is 47 c || is 63 c

theorem pchar_eq : pchar = unit isPcharByte := by
  have hsum : symbol isPcharByte =
      symbol isUnreserved + symbol isSubDelim + symbol (is 58) + symbol (is 64) := by
    simp only [symbol_add_symbol]
    rfl
  rw [pchar, unit, hsum]
  abel

theorem query_eq : query = (unit isQueryByte)∗ := by
  have hsum : symbol isQueryByte = symbol isPcharByte + symbol (is 47) + symbol (is 63) := by
    simp only [symbol_add_symbol]
    rfl
  rw [query, pchar_eq, unit, unit, hsum]
  congr 1
  abel

theorem inClass_charMethod : ∀ c : UInt8, inClass c charMethod = isMethodChar c :=
  forall_byte (by decide +kernel)

theorem inClass_charID : ∀ c : UInt8, inClass c charID = isIDByte c :=
  forall_byte (by decide +kernel)

theorem inClass_charHex : ∀ c : UInt8, inClass c charHex = isHexDig c :=
  forall_byte (by decide +kernel)

theorem inClass_eq_isPcharByte : ∀ c : UInt8, ¬ (c = 47 ∨ c = 58 ∨ c = 64) →
    inClass c (charUnreserved ||| charSubDelim) = isPcharByte c :=
  forall_byte (by decide +kernel)

theorem inClass_eq_isQueryByte (c : UInt8) (hc : ¬ (c = 47 ∨ c = 63 ∨ c = 58 ∨ c = 64)) :
    inClass c (charUnreserved ||| charSubDelim) = isQueryByte c := by
  obtain ⟨hslash, hquestion, hcolon, hat⟩ : c ≠ 47 ∧ c ≠ 63 ∧ c ≠ 58 ∧ c ≠ 64 := by
    simpa only [not_or] using hc
  rw [inClass_eq_isPcharByte c (by simp [hslash, hcolon, hat]), isQueryByte, is, is,
    decide_eq_false hslash, decide_eq_false hquestion, Bool.or_false, Bool.or_false]

/-! ## What each state may still read -/

def fragmentTail : Language UInt8 := 1 + symbol (is 35) * fragment

def queryRest : Language UInt8 := query * fragmentTail

def pathRest : Language UInt8 := pchar∗ * (pathAbempty * suffix)

/-- What may follow the identifier: the rest of a URL, or nothing. -/
def idTail (allow : Bool) : Language UInt8 := if allow then path * suffix else 1

/-- After the identifier has ended in a byte of a segment. -/
def idMore (allow : Bool) : Language UInt8 :=
  idchar∗ * (idTail allow + symbol (is 58) * (methodSpecificID * idTail allow))

def methodMore (allow : Bool) : Language UInt8 :=
  (symbol isMethodChar)∗ * (symbol (is 58) * (methodSpecificID * idTail allow))

theorem cons_mem_is_mul {b c : UInt8} {w : List UInt8} {L : Language UInt8} :
    c :: w ∈ symbol (is b) * L ↔ c = b ∧ w ∈ L := by
  rw [cons_mem_symbol_mul, is, decide_eq_true_iff]

theorem nil_mem_fragment : [] ∈ fragment := Language.nil_mem_kstar _

theorem cons_mem_fragment {c : UInt8} {w : List UInt8} :
    c :: w ∈ fragment ↔ Eats isQueryByte fragment c w := by
  have heq : fragment = (unit isQueryByte)∗ * 1 := by rw [mul_one, ← query_eq]; rfl
  rw [heq, cons_mem_units_mul]
  simp

theorem nil_mem_fragmentTail : [] ∈ fragmentTail := Or.inl rfl

theorem cons_mem_fragmentTail {c : UInt8} {w : List UInt8} :
    c :: w ∈ fragmentTail ↔ c = 35 ∧ w ∈ fragment := by
  rw [fragmentTail, Language.mem_add, cons_mem_is_mul]
  simp

theorem nil_mem_queryRest : [] ∈ queryRest := by
  rw [queryRest, query_eq, nil_mem_units_mul]
  exact nil_mem_fragmentTail

theorem cons_mem_queryRest {c : UInt8} {w : List UInt8} :
    c :: w ∈ queryRest ↔ (c = 35 ∧ w ∈ fragment) ∨ Eats isQueryByte queryRest c w := by
  rw [queryRest, query_eq, cons_mem_units_mul, cons_mem_fragmentTail]

theorem suffix_eq : suffix = fragmentTail + symbol (is 63) * queryRest := by
  rw [suffix, add_mul, one_mul, mul_assoc]
  rfl

theorem nil_mem_suffix : [] ∈ suffix := by
  rw [suffix_eq]
  exact Or.inl nil_mem_fragmentTail

theorem cons_mem_suffix {c : UInt8} {w : List UInt8} :
    c :: w ∈ suffix ↔ (c = 35 ∧ w ∈ fragment) ∨ c = 63 ∧ w ∈ queryRest := by
  rw [suffix_eq, Language.mem_add, cons_mem_fragmentTail, cons_mem_is_mul]

theorem pathAbempty_mul_suffix : pathAbempty * suffix = suffix + symbol (is 47) * pathRest := by
  rw [pathAbempty, kstar_mul_eq, mul_assoc]
  rfl

theorem nil_mem_pathRest : [] ∈ pathRest := by
  rw [pathRest, pchar_eq, nil_mem_units_mul, pathAbempty_mul_suffix]
  exact Or.inl nil_mem_suffix

theorem cons_mem_pathRest {c : UInt8} {w : List UInt8} :
    c :: w ∈ pathRest ↔
      (c :: w ∈ suffix ∨ c = 47 ∧ w ∈ pathRest) ∨ Eats isPcharByte pathRest c w := by
  have heq : pathRest = (unit isPcharByte)∗ * (suffix + symbol (is 47) * pathRest) := by
    rw [← pathAbempty_mul_suffix, ← pchar_eq]
    rfl
  rw [heq, cons_mem_units_mul, ← heq, Language.mem_add, cons_mem_is_mul]

theorem cons_mem_pathAbempty {c : UInt8} {w : List UInt8} :
    c :: w ∈ pathAbempty ↔ c = 47 ∧ w ∈ pchar∗ * pathAbempty := by
  have heq : pathAbempty = 1 + symbol (is 47) * (pchar∗ * pathAbempty) := by
    rw [← mul_assoc]
    exact (Language.one_add_self_mul_kstar_eq_kstar _).symm
  rw [heq, Language.mem_add, cons_mem_is_mul, ← heq]
  simp

theorem nil_mem_path : [] ∈ path := ⟨Language.nil_mem_kstar _, by simp⟩

theorem head?_ne_of_mem_suffix {w : List UInt8} (h : w ∈ suffix) : w.head? ≠ some 47 := by
  cases w with
  | nil => simp
  | cons c w =>
      rintro hc
      obtain rfl := Option.some.inj hc
      rcases cons_mem_suffix.mp h with ⟨hc, _⟩ | ⟨hc, _⟩ <;> exact absurd hc (by decide)

theorem cons_mem_path_mul_suffix {c : UInt8} {w : List UInt8} :
    c :: w ∈ path * suffix ↔
      c :: w ∈ suffix ∨ c = 47 ∧ w.head? ≠ some 47 ∧ w ∈ pathRest := by
  constructor
  · rintro ⟨p, ⟨hp, hauthority⟩, t, ht, heq⟩
    change p ++ t = c :: w at heq
    cases p with
    | nil => exact Or.inl (by rwa [← heq])
    | cons a q =>
        obtain ⟨rfl, rfl⟩ := List.cons.inj heq
        obtain ⟨rfl, hq⟩ := cons_mem_pathAbempty.mp hp
        refine Or.inr ⟨rfl, ?_, by rw [pathRest, ← mul_assoc]; exact ⟨q, hq, t, ht, rfl⟩⟩
        cases q with
        | nil => exact head?_ne_of_mem_suffix ht
        | cons b q =>
            intro hb
            obtain rfl := Option.some.inj hb
            exact hauthority (by simp)
  · rintro (h | ⟨rfl, hhead, h⟩)
    · exact ⟨[], nil_mem_path, c :: w, h, rfl⟩
    · rw [pathRest, ← mul_assoc] at h
      obtain ⟨q, hq, t, ht, rfl⟩ := h
      refine ⟨47 :: q, ⟨cons_mem_pathAbempty.mpr ⟨rfl, hq⟩, ?_⟩, t, ht, rfl⟩
      rintro ⟨r, hr⟩
      rw [← (List.cons.inj hr).2] at hhead
      exact hhead rfl

theorem nil_mem_idTail (allow : Bool) : [] ∈ idTail allow := by
  unfold idTail
  split_ifs
  · exact ⟨[], nil_mem_path, [], nil_mem_suffix, rfl⟩
  · rfl

theorem cons_mem_idTail {allow : Bool} {c : UInt8} {w : List UInt8} :
    c :: w ∈ idTail allow ↔ allow ∧ ((c = 35 ∧ w ∈ fragment ∨ c = 63 ∧ w ∈ queryRest) ∨
      c = 47 ∧ w.head? ≠ some 47 ∧ w ∈ pathRest) := by
  cases allow with
  | false => simp [idTail]
  | true => simp [idTail, cons_mem_path_mul_suffix, cons_mem_suffix]

theorem methodSpecificID_mul_idTail (allow : Bool) :
    methodSpecificID * idTail allow =
      idchar * idMore allow + symbol (is 58) * (methodSpecificID * idTail allow) := by
  have hopen : methodSpecificID * idTail allow = idchar * (idchar∗ * idTail allow) +
      idchar∗ * (symbol (is 58) * (methodSpecificID * idTail allow)) := by
    nth_rewrite 1 [methodSpecificID]
    rw [mul_assoc, kstar_mul_eq, mul_assoc, mul_assoc, methodSpecificID, mul_assoc, mul_assoc]
  nth_rewrite 1 [hopen]
  rw [kstar_mul_eq idchar (symbol (is 58) * _), idMore, mul_add, mul_add]
  abel

theorem nil_notMem_methodSpecificID_mul (allow : Bool) :
    [] ∉ methodSpecificID * idTail allow := by
  rw [methodSpecificID_mul_idTail, Language.mem_add]
  exact not_or_intro nil_notMem_unit_mul nil_notMem_symbol_mul

theorem cons_mem_methodSpecificID_mul {allow : Bool} {c : UInt8} {w : List UInt8} :
    c :: w ∈ methodSpecificID * idTail allow ↔
      Eats isIDByte (idMore allow) c w ∨ c = 58 ∧ w ∈ methodSpecificID * idTail allow := by
  rw [methodSpecificID_mul_idTail, Language.mem_add, cons_mem_is_mul,
    ← methodSpecificID_mul_idTail]
  exact or_congr_left cons_mem_unit_mul

theorem nil_mem_idMore (allow : Bool) : [] ∈ idMore allow :=
  nil_mem_units_mul.mpr (Or.inl (nil_mem_idTail allow))

theorem cons_mem_idMore {allow : Bool} {c : UInt8} {w : List UInt8} :
    c :: w ∈ idMore allow ↔
      (c :: w ∈ idTail allow ∨ c = 58 ∧ w ∈ methodSpecificID * idTail allow) ∨
        Eats isIDByte (idMore allow) c w := by
  rw [← cons_mem_is_mul, ← Language.mem_add]
  exact cons_mem_units_mul

theorem nil_notMem_methodMore (allow : Bool) : [] ∉ methodMore allow := by
  rw [methodMore, kstar_mul_eq, Language.mem_add]
  exact not_or_intro nil_notMem_symbol_mul nil_notMem_symbol_mul

theorem cons_mem_methodMore {allow : Bool} {c : UInt8} {w : List UInt8} :
    c :: w ∈ methodMore allow ↔
      c = 58 ∧ w ∈ methodSpecificID * idTail allow ∨ isMethodChar c ∧ w ∈ methodMore allow := by
  rw [methodMore, kstar_mul_eq, Language.mem_add, cons_mem_is_mul, cons_mem_symbol_mul,
    ← kstar_mul_eq]

/-! ## The scanner -/

/-- The positions are in order and within what has been read, state by state. -/
def Ordered (i : ℤ) (m : Scan) : Prop :=
  match m.state with
  | .method => m.url = false ∧ m.idEnd = -1 ∧ m.pathStart = -1 ∧ m.queryStart = -1 ∧
      m.fragmentStart = -1
  | .id => m.url = false ∧ 4 ≤ m.methodEnd ∧ m.methodEnd < m.idStart ∧ m.idStart ≤ i ∧
      m.idEnd = -1 ∧ m.pathStart = -1 ∧ m.queryStart = -1 ∧ m.fragmentStart = -1
  | .path => m.url = true ∧ 4 ≤ m.methodEnd ∧ m.methodEnd < m.idStart ∧ m.idStart < m.idEnd ∧
      m.idEnd = m.pathStart ∧ m.pathStart < i ∧ m.queryStart = -1 ∧ m.fragmentStart = -1
  | .query => m.url = true ∧ 4 ≤ m.methodEnd ∧ m.methodEnd < m.idStart ∧ m.idStart < m.idEnd ∧
      m.idEnd < m.queryStart ∧ m.pathStart < m.queryStart ∧ m.queryStart ≤ i ∧
      m.fragmentStart = -1
  | .fragment => m.url = true ∧ 4 ≤ m.methodEnd ∧ m.methodEnd < m.idStart ∧ m.idStart < m.idEnd ∧
      m.idEnd < m.fragmentStart ∧ m.pathStart < m.fragmentStart ∧
      (0 ≤ m.queryStart → m.pathStart < m.queryStart) ∧ m.queryStart < m.fragmentStart ∧
      m.fragmentStart ≤ i

theorem exists_slice {s : GoString} {lo hi : ℤ} (h : 0 ≤ lo) (hle : lo ≤ hi)
    (hhi : hi ≤ s.length) : ∃ t, (slice s lo hi : Outcome Err GoString) = .ok t :=
  ⟨_, if_pos ⟨h, hle, hhi⟩⟩

section Cuts

variable {s : GoString} {m : Scan} (h : Ordered s.length m) (hstate : m.state ≠ .method)

include h hstate

theorem exists_method : ∃ t, (slice s 4 m.methodEnd : Outcome Err GoString) = .ok t := by
  apply exists_slice (by norm_num) <;>
    cases hm : m.state <;> simp only [Ordered, hm] at h <;> first | contradiction | omega

theorem exists_methodSpecificID :
    ∃ t, (slice s m.idStart (m.idStop s) : Outcome Err GoString) = .ok t := by
  unfold Scan.idStop
  apply exists_slice <;>
    cases hm : m.state <;> simp only [Ordered, hm] at h <;>
      first | contradiction | (split_ifs <;> omega) | omega

theorem exists_pathOf : ∃ t, m.pathOf s = .ok t := by
  unfold Scan.pathOf
  by_cases hp : 0 ≤ m.pathStart
  · rw [if_pos hp]
    apply exists_slice hp <;>
      cases hm : m.state <;> simp only [Ordered, hm] at h <;>
        first | contradiction | (split_ifs <;> omega)
  · exact ⟨[], if_neg hp⟩

theorem exists_queryOf : ∃ t, m.queryOf s = .ok t := by
  unfold Scan.queryOf
  by_cases hq : 0 ≤ m.queryStart
  · rw [if_pos hq]
    apply exists_slice hq <;>
      cases hm : m.state <;> simp only [Ordered, hm] at h <;>
        first | contradiction | (split_ifs <;> omega)
  · exact ⟨[], if_neg hq⟩

theorem exists_fragmentOf : ∃ t, m.fragmentOf s = .ok t := by
  unfold Scan.fragmentOf
  by_cases hf : 0 ≤ m.fragmentStart
  · rw [if_pos hf]
    apply exists_slice hf <;>
      cases hm : m.state <;> simp only [Ordered, hm] at h <;> first | contradiction | omega
  · exact ⟨[], if_neg hf⟩

/-- Ordered positions cut out the components without leaving the string. -/
theorem exists_finish_eq_ok
    (hid : ¬ (m.idStart = s.length ∨ (m.idEnd < 0 ∧ s.getLast? = some 58))) :
    ∃ d, finish s m = .ok d ∧ d.isURL = m.url := by
  obtain ⟨method, hmethod⟩ := exists_method h hstate
  obtain ⟨id, hid'⟩ := exists_methodSpecificID h hstate
  obtain ⟨path, hpath⟩ := exists_pathOf h hstate
  obtain ⟨query, hquery⟩ := exists_queryOf h hstate
  obtain ⟨fragment, hfragment⟩ := exists_fragmentOf h hstate
  refine ⟨⟨s, method, id, path, query, fragment, m.url⟩, ?_, rfl⟩
  simp only [finish, if_neg hstate, if_neg hid, hmethod, hid', hpath, hquery, hfragment,
    Outcome.ok_bind]

end Cuts

/-- The run comes to an identifier, and to one without URL parts if they are
not allowed. -/
def Accepts (allow : Bool) (x : Outcome Err DID) : Prop := ∃ d, x = .ok d ∧ (d.isURL → allow)

@[simp] theorem not_accepts_error (allow : Bool) (e : Err) : ¬ Accepts allow (.error e) := by
  simp [Accepts]

/-- A language that is empty unless URL parts are allowed. -/
def gate (allow : Bool) (L : Language UInt8) : Language UInt8 := if allow then L else 0

@[simp] theorem mem_gate {allow : Bool} {L : Language UInt8} {w : List UInt8} :
    w ∈ gate allow L ↔ allow ∧ w ∈ L := by
  cases allow <;> simp [gate]

@[simp] theorem eats_gate {allow : Bool} {p : UInt8 → Bool} {L : Language UInt8} {c : UInt8}
    {w : List UInt8} : Eats p (gate allow L) c w ↔ allow ∧ Eats p L c w := by
  cases allow <;> simp [gate, Eats]

/-- What may be read from the index `i` on. -/
def restOf (allow : Bool) (s : GoString) (i : ℕ) (m : Scan) : Language UInt8 :=
  match m.state with
  | .method =>
      if i = 4 then methodName * (symbol (is 58) * (methodSpecificID * idTail allow))
      else methodMore allow
  | .id =>
      if (i : ℤ) = m.idStart ∨ s[i - 1]? = some 58 then methodSpecificID * idTail allow
      else idMore allow
  | .path => gate allow pathRest
  | .query => gate allow queryRest
  | .fragment => gate allow fragment

theorem accepts_finish_iff (allow : Bool) {s : GoString} {m : Scan} (h : Ordered s.length m) :
    Accepts allow (finish s m) ↔ [] ∈ restOf allow s s.length m := by
  have hdone : m.state ≠ .method →
      ¬ (m.idStart = s.length ∨ (m.idEnd < 0 ∧ s.getLast? = some 58)) →
      (Accepts allow (finish s m) ↔ (m.url → allow)) := by
    intro hstate hid
    obtain ⟨d, hd, hurl⟩ := exists_finish_eq_ok h hstate hid
    simp [Accepts, hd, hurl]
  cases hm : m.state with
  | method =>
      have hnil : [] ∉ restOf allow s s.length m := by
        simp only [restOf, hm]
        split_ifs
        · rw [methodName, mul_assoc]
          exact nil_notMem_symbol_mul
        · exact nil_notMem_methodMore allow
      simp [finish, hm, hnil]
  | id =>
      have hord := h
      simp only [Ordered, hm] at hord
      have hflag : (m.idStart = s.length ∨ (m.idEnd < 0 ∧ s.getLast? = some 58)) ↔
          ((s.length : ℤ) = m.idStart ∨ s[s.length - 1]? = some 58) := by
        rw [List.getLast?_eq_getElem?, eq_comm]
        simp [hord.2.2.2.2.1]
      by_cases hid : (s.length : ℤ) = m.idStart ∨ s[s.length - 1]? = some 58
      · have herr : finish s m = .error (.sentinel .errEmptyMethodSpecificID) := by
          rw [finish, if_neg (by simp [hm]), if_pos (hflag.mpr hid)]
        simp only [herr, not_accepts_error, restOf, hm, if_pos hid, false_iff]
        exact nil_notMem_methodSpecificID_mul allow
      · rw [hdone (by simp [hm]) (fun hc ↦ hid (hflag.mp hc)), hord.1]
        simp only [restOf, hm, if_neg hid]
        exact iff_of_true (by simp) (nil_mem_idMore allow)
  | path =>
      simp only [Ordered, hm] at h
      rw [hdone (by simp [hm]) (by omega), h.1]
      simp [restOf, hm, nil_mem_pathRest]
  | query =>
      simp only [Ordered, hm] at h
      rw [hdone (by simp [hm]) (by omega), h.1]
      simp [restOf, hm, nil_mem_queryRest]
  | fragment =>
      simp only [Ordered, hm] at h
      rw [hdone (by simp [hm]) (by omega), h.1]
      simp [restOf, hm, nil_mem_fragment]

theorem run_succ {s : GoString} {fuel i : ℕ} {c : UInt8} {m : Scan} (hc : s[i]? = some c) :
    run s (fuel + 1) i m = step s i c m >>= fun r ↦ run s fuel (r.1 + 1) r.2 := by
  rw [run, hc]

theorem drop_eq_cons {s : GoString} {i : ℕ} {c : UInt8} (hc : s[i]? = some c) :
    s.drop i = c :: s.drop (i + 1) := by
  obtain ⟨hi, rfl⟩ := List.getElem?_eq_some_iff.mp hc
  exact List.drop_eq_getElem_cons hi

theorem validEscapedOr_percent (s : GoString) (i : ℕ) (mask : UInt8) :
    validEscapedOr 37 s i mask =
      match s.drop (i + 1) with
      | a :: b :: _ => if isHexDig a && isHexDig b then (i + 2, true) else (i, false)
      | _ => (i, false) := by
  have hfirst : s[i + 1]? = (s.drop (i + 1)).head? := List.head?_drop.symm
  have hsecond : s[i + 2]? = (s.drop (i + 1)).tail.head? := by
    rw [List.tail_drop, List.head?_drop]
  rw [validEscapedOr, if_neg (by simp), hfirst, hsecond]
  rcases s.drop (i + 1) with _ | ⟨a, _ | ⟨b, r⟩⟩
  · rfl
  · rfl
  · simp only [List.head?_cons, List.tail_cons, inClass_charHex]

section Turn

variable {allow : Bool} {s : GoString} {fuel i : ℕ} {c : UInt8} {m : Scan} {L : Language UInt8}

theorem accepts_percent_iff {mask : UInt8}
    (hrest : ∀ j, i < j → j ≤ s.length → s[j - 1]? ≠ some 58 →
      (Accepts allow (run s fuel j m) ↔ s.drop j ∈ L)) :
    Accepts allow (escapedOr 37 s i mask m >>= fun r ↦ run s fuel (r.1 + 1) r.2) ↔
      ∃ a b r, s.drop (i + 1) = a :: b :: r ∧ isHexDig a ∧ isHexDig b ∧ r ∈ L := by
  rw [escapedOr, validEscapedOr_percent]
  rcases hab : s.drop (i + 1) with _ | ⟨a, _ | ⟨b, r⟩⟩
  · simp
  · simp
  have hb : s[i + 2]? = some b := by
    rw [← List.head?_drop, ← List.tail_drop, hab]
    rfl
  have hr : s.drop (i + 2 + 1) = r := by
    rw [← List.tail_drop, ← List.tail_drop, hab]
    rfl
  obtain ⟨hlt, _⟩ := List.getElem?_eq_some_iff.mp hb
  simp only [List.cons.injEq]
  by_cases hhex : (isHexDig a && isHexDig b) = true
  · have h58 : s[i + 2 + 1 - 1]? ≠ some 58 := by
      intro h
      rw [Nat.add_sub_cancel, hb] at h
      obtain rfl := Option.some.inj h
      simp [isHexDig, isDigit] at hhex
    rw [if_pos hhex, Outcome.ok_bind, hrest (i + 2 + 1) (by omega) (by omega) h58, hr]
    obtain ⟨ha, hb⟩ := Bool.and_eq_true_iff.mp hhex
    constructor
    · exact fun h ↦ ⟨a, b, r, ⟨rfl, rfl, rfl⟩, ha, hb, h⟩
    · rintro ⟨_, _, _, ⟨rfl, rfl, rfl⟩, _, _, h⟩
      exact h
  · rw [if_neg hhex, Outcome.error_bind, iff_false_left (not_accepts_error _ _)]
    rintro ⟨_, _, _, ⟨rfl, rfl, rfl⟩, ha, hb, _⟩
    exact hhex (Bool.and_eq_true_iff.mpr ⟨ha, hb⟩)

theorem accepts_escapedOr_iff {mask : UInt8} {p : UInt8 → Bool} (hc : s[i]? = some c)
    (hp : inClass c mask = p c) (hp37 : p 37 = false) (h58 : c ≠ 58)
    (hrest : ∀ j, i < j → j ≤ s.length → s[j - 1]? ≠ some 58 →
      (Accepts allow (run s fuel j m) ↔ s.drop j ∈ L)) :
    Accepts allow (escapedOr c s i mask m >>= fun r ↦ run s fuel (r.1 + 1) r.2) ↔
      Eats p L c (s.drop (i + 1)) := by
  by_cases h37 : c = 37
  · subst h37
    rw [accepts_percent_iff hrest, Eats, hp37]
    simp
  · obtain ⟨hi, _⟩ := List.getElem?_eq_some_iff.mp hc
    have h58i : s[i + 1 - 1]? ≠ some 58 := by
      rw [Nat.add_sub_cancel, hc]
      exact fun h ↦ h58 (Option.some.inj h)
    rw [Eats, escapedOr, validEscapedOr, if_pos h37, hp]
    simp only [h37, false_and, or_false]
    cases p c with
    | true => simpa using hrest (i + 1) (by omega) (by omega) h58i
    | false => simp

end Turn

section Run

variable {allow : Bool} {s : GoString} {fuel i : ℕ} {c : UInt8} {m : Scan}

/-- What the rest of the run accepts, from every later index. -/
def Settled (allow : Bool) (s : GoString) (fuel i : ℕ) : Prop :=
  ∀ j m, i < j → j ≤ s.length → Ordered j m →
    (Accepts allow (run s fuel j m) ↔ s.drop j ∈ restOf allow s j m)

variable (ih : Settled allow s fuel i) (hc : s[i]? = some c) (h : Ordered i m)

include ih hc h

theorem accepts_step_method (hm : m.state = .method) (hi : 4 ≤ i) :
    Accepts allow (step s i c m >>= fun r ↦ run s fuel (r.1 + 1) r.2) ↔
      c :: s.drop (i + 1) ∈ restOf allow s i m := by
  obtain ⟨hlt, _⟩ := List.getElem?_eq_some_iff.mp hc
  have hmore : c :: s.drop (i + 1) ∈ restOf allow s i m ↔
      (i ≠ 4 ∧ c = 58 ∧ s.drop (i + 1) ∈ methodSpecificID * idTail allow) ∨
        isMethodChar c ∧ s.drop (i + 1) ∈ methodMore allow := by
    simp only [restOf, hm]
    split_ifs with hi4
    · rw [methodName, mul_assoc, cons_mem_symbol_mul]
      simp [hi4, methodMore]
    · rw [cons_mem_methodMore]
      simp [hi4]
  simp only [step, hm, hmore]
  by_cases h58 : c = 58
  · subst h58
    have hclass : isMethodChar 58 = false := by decide
    simp only [if_true, hclass]
    split_ifs with hi4
    · simp [hi4]
    · have hnext : Ordered (i + 1 : ℕ)
          { m with methodEnd := i, idStart := i + 1, state := .id } := by
        simp only [Ordered, hm] at h ⊢
        exact ⟨h.1, by omega, by omega, by omega, h.2⟩
      rw [Outcome.ok_bind, ih _ _ (by omega) (by omega) hnext]
      simp [restOf, hi4]
  · simp only [if_neg h58, inClass_charMethod]
    cases hclass : isMethodChar c with
    | false => simp [h58]
    | true =>
        rw [Bool.not_true, if_neg (by simp), Outcome.ok_bind, ih _ _ (by omega) (by omega)
          (by simpa only [Ordered, hm] using h)]
        simp only [restOf, hm, h58]
        rw [if_neg (by omega)]
        simp

theorem accepts_step_id (hm : m.state = .id) (hi : 4 ≤ i) :
    Accepts allow (step s i c m >>= fun r ↦ run s fuel (r.1 + 1) r.2) ↔
      c :: s.drop (i + 1) ∈ restOf allow s i m := by
  obtain ⟨hlt, _⟩ := List.getElem?_eq_some_iff.mp hc
  have hord := h
  simp only [Ordered, hm] at hord
  -- after a byte of a segment the look-behind finds no colon
  have hmore : ∀ j, i < j → j ≤ s.length → s[j - 1]? ≠ some 58 →
      (Accepts allow (run s fuel j m) ↔ s.drop j ∈ idMore allow) := by
    intro j hj hjs hj58
    rw [ih j m hj hjs (by simp only [Ordered, hm]; exact ⟨hord.1, by omega⟩)]
    simp only [restOf, hm]
    rw [if_neg (not_or_intro (by omega) hj58)]
  simp only [step, hm, stepID, restOf]
  by_cases hdelim : c = 47 ∨ c = 63 ∨ c = 35
  · have h58 : c ≠ 58 := by rintro rfl; simp at hdelim
    have hnot : ∀ L, ¬ Eats isIDByte L c (s.drop (i + 1)) := by
      rintro L (⟨hbyte, _⟩ | ⟨rfl, _⟩)
      · rcases hdelim with rfl | rfl | rfl <;> exact absurd hbyte (by decide)
      · simp at hdelim
    have htail : c :: s.drop (i + 1) ∈ idMore allow ↔ c :: s.drop (i + 1) ∈ idTail allow := by
      simp [cons_mem_idMore, hnot, h58]
    have hhead : (s.drop (i + 1)).head? = s[i + 1]? := List.head?_drop
    rw [if_pos hdelim]
    split_ifs with hempty hslash hauthority hquery
    · simp [cons_mem_methodSpecificID_mul, hnot, h58]
    · rw [htail, cons_mem_idTail, hhead]
      simp [hslash, hauthority]
    · have hnext : Ordered (i + 1 : ℕ)
          { m with idEnd := i, url := true, pathStart := i, state := .path } := by
        dsimp only [Ordered]
        exact ⟨rfl, by omega⟩
      rw [htail, cons_mem_idTail, hhead, Outcome.ok_bind, ih _ _ (by omega) (by omega) hnext]
      simp [restOf, hslash, hauthority]
    · have hnext : Ordered (i + 1 : ℕ)
          { m with idEnd := i, url := true, queryStart := i + 1, state := .query } := by
        dsimp only [Ordered]
        exact ⟨rfl, by omega⟩
      rw [htail, cons_mem_idTail, Outcome.ok_bind, ih _ _ (by omega) (by omega) hnext]
      simp [restOf, hquery]
    · obtain rfl : c = 35 := by tauto
      have hnext : Ordered (i + 1 : ℕ)
          { m with idEnd := i, url := true, fragmentStart := i + 1, state := .fragment } := by
        dsimp only [Ordered]
        exact ⟨rfl, by omega⟩
      rw [htail, cons_mem_idTail, Outcome.ok_bind, ih _ _ (by omega) (by omega) hnext]
      simp [restOf]
  · have htail : c :: s.drop (i + 1) ∉ idTail allow := by
      rw [cons_mem_idTail]
      tauto
    rw [if_neg hdelim]
    by_cases h58 : c = 58
    · subst h58
      have hnot : ∀ L, ¬ Eats isIDByte L 58 (s.drop (i + 1)) := by
        rintro L (⟨hbyte, _⟩ | ⟨hc37, _⟩)
        · exact absurd hbyte (by decide)
        · exact absurd hc37 (by decide)
      have hopen : restOf allow s (i + 1) m = methodSpecificID * idTail allow := by
        simp only [restOf, hm]
        rw [if_pos (Or.inr (by simpa using hc))]
      rw [if_pos rfl, Outcome.ok_bind, ih _ m (by omega) (by omega)
        (by simp only [Ordered, hm]; exact ⟨hord.1, by omega⟩), hopen]
      split_ifs
      · simp [cons_mem_methodSpecificID_mul, hnot]
      · simp [cons_mem_idMore, hnot, htail]
    · rw [if_neg h58,
        accepts_escapedOr_iff hc (inClass_charID c) (by decide) h58 hmore]
      split_ifs
      · simp [cons_mem_methodSpecificID_mul, h58]
      · simp [cons_mem_idMore, h58, htail]

theorem accepts_step_path (hm : m.state = .path) :
    Accepts allow (step s i c m >>= fun r ↦ run s fuel (r.1 + 1) r.2) ↔
      c :: s.drop (i + 1) ∈ restOf allow s i m := by
  obtain ⟨hlt, _⟩ := List.getElem?_eq_some_iff.mp hc
  have hord := h
  simp only [Ordered, hm] at hord
  have hstay : ∀ j, i < j → j ≤ s.length →
      (Accepts allow (run s fuel j m) ↔ s.drop j ∈ gate allow pathRest) := by
    intro j hj hjs
    rw [ih j m hj hjs (by simp only [Ordered, hm]; exact ⟨hord.1, by omega⟩)]
    simp only [restOf, hm]
  simp only [step, hm, restOf, mem_gate, cons_mem_pathRest, cons_mem_suffix]
  split_ifs with hquery hfragment hplain
  · have hnext : Ordered (i + 1 : ℕ) { m with queryStart := i + 1, state := .query } := by
      dsimp only [Ordered]
      exact ⟨hord.1, by omega⟩
    rw [Outcome.ok_bind, ih _ _ (by omega) (by omega) hnext]
    subst hquery
    simp [restOf, Eats, show isPcharByte 63 = false from by decide]
  · have hnext : Ordered (i + 1 : ℕ) { m with fragmentStart := i + 1, state := .fragment } := by
      dsimp only [Ordered]
      exact ⟨hord.1, by omega⟩
    rw [Outcome.ok_bind, ih _ _ (by omega) (by omega) hnext]
    subst hfragment
    simp [restOf, Eats, show isPcharByte 35 = false from by decide]
  · rw [Outcome.ok_bind, hstay (i + 1) (by omega) (by omega)]
    rcases hplain with rfl | rfl | rfl
    · simp [Eats, show isPcharByte 47 = false from by decide]
    · simp [Eats, show isPcharByte 58 = true from by decide]
    · simp [Eats, show isPcharByte 64 = true from by decide]
  · rw [accepts_escapedOr_iff hc (inClass_eq_isPcharByte c hplain) (by decide) (by tauto)
      fun j hj hjs _ ↦ hstay j hj hjs, eats_gate]
    tauto

theorem accepts_step_query (hm : m.state = .query) :
    Accepts allow (step s i c m >>= fun r ↦ run s fuel (r.1 + 1) r.2) ↔
      c :: s.drop (i + 1) ∈ restOf allow s i m := by
  obtain ⟨hlt, _⟩ := List.getElem?_eq_some_iff.mp hc
  have hord := h
  simp only [Ordered, hm] at hord
  have hstay : ∀ j, i < j → j ≤ s.length →
      (Accepts allow (run s fuel j m) ↔ s.drop j ∈ gate allow queryRest) := by
    intro j hj hjs
    rw [ih j m hj hjs (by simp only [Ordered, hm]; exact ⟨hord.1, by omega⟩)]
    simp only [restOf, hm]
  simp only [step, hm, restOf, mem_gate, cons_mem_queryRest]
  split_ifs with hfragment hplain
  · have hnext : Ordered (i + 1 : ℕ) { m with fragmentStart := i + 1, state := .fragment } := by
      dsimp only [Ordered]
      exact ⟨hord.1, by omega⟩
    rw [Outcome.ok_bind, ih _ _ (by omega) (by omega) hnext]
    subst hfragment
    simp [restOf, Eats, show isQueryByte 35 = false from by decide]
  · have hbyte : isQueryByte c = true := by
      rcases hplain with rfl | rfl | rfl | rfl <;> decide
    have h37 : c ≠ 37 := by rintro rfl; simp at hplain
    rw [Outcome.ok_bind, hstay (i + 1) (by omega) (by omega)]
    simp [Eats, hbyte, h37, hfragment]
  · rw [accepts_escapedOr_iff hc (inClass_eq_isQueryByte c hplain) (by decide) (by tauto)
      fun j hj hjs _ ↦ hstay j hj hjs]
    simp [hfragment]

theorem accepts_step_fragment (hm : m.state = .fragment) :
    Accepts allow (step s i c m >>= fun r ↦ run s fuel (r.1 + 1) r.2) ↔
      c :: s.drop (i + 1) ∈ restOf allow s i m := by
  obtain ⟨hlt, _⟩ := List.getElem?_eq_some_iff.mp hc
  have hord := h
  simp only [Ordered, hm] at hord
  have hstay : ∀ j, i < j → j ≤ s.length →
      (Accepts allow (run s fuel j m) ↔ s.drop j ∈ gate allow fragment) := by
    intro j hj hjs
    rw [ih j m hj hjs (by simp only [Ordered, hm]; exact ⟨hord.1, by omega⟩)]
    simp only [restOf, hm]
  simp only [step, hm, restOf, mem_gate, cons_mem_fragment]
  split_ifs with hplain
  · have hbyte : isQueryByte c = true := by
      rcases hplain with rfl | rfl | rfl | rfl <;> decide
    have h37 : c ≠ 37 := by rintro rfl; simp at hplain
    rw [Outcome.ok_bind, hstay (i + 1) (by omega) (by omega)]
    simp [Eats, hbyte, h37]
  · rw [accepts_escapedOr_iff hc (inClass_eq_isQueryByte c hplain) (by decide) (by tauto)
      fun j hj hjs _ ↦ hstay j hj hjs]
    simp

/-- One turn of the loop moves to the language of the rest. -/
theorem accepts_step (hi : 4 ≤ i) :
    Accepts allow (step s i c m >>= fun r ↦ run s fuel (r.1 + 1) r.2) ↔
      c :: s.drop (i + 1) ∈ restOf allow s i m := by
  cases hm : m.state with
  | method => exact accepts_step_method ih hc h hm hi
  | id => exact accepts_step_id ih hc h hm hi
  | path => exact accepts_step_path ih hc h hm
  | query => exact accepts_step_query ih hc h hm
  | fragment => exact accepts_step_fragment ih hc h hm

end Run

theorem accepts_run_iff {allow : Bool} {s : GoString} (fuel i : ℕ) (m : Scan) (hi : 4 ≤ i)
    (his : i ≤ s.length) (hfuel : s.length ≤ i + fuel) (h : Ordered i m) :
    Accepts allow (run s fuel i m) ↔ s.drop i ∈ restOf allow s i m := by
  induction fuel generalizing i m with
  | zero =>
      obtain rfl : i = s.length := by omega
      rw [run, List.getElem?_eq_none (le_refl _), List.drop_length]
      exact accepts_finish_iff allow h
  | succ fuel ih =>
      cases hc : s[i]? with
      | none =>
          obtain rfl : i = s.length := le_antisymm his (List.getElem?_eq_none_iff.mp hc)
          rw [run, hc, List.drop_length]
          exact accepts_finish_iff allow h
      | some c =>
          have hsettled : Settled allow s fuel i := fun j m' hj hjs hord ↦
            ih j m' (by omega) hjs (by omega) hord
          rw [run_succ hc, drop_eq_cons hc]
          exact accepts_step hsettled hc h hi

theorem accepts_parseBare_iff (allow : Bool) (s : GoString) :
    Accepts allow (parseBare s) ↔ s ∈ did * idTail allow := by
  have hgrammar : did * idTail allow =
      {scheme} * (methodName * (symbol (is 58) * (methodSpecificID * idTail allow))) := by
    simp only [did, mul_assoc]
  rw [hgrammar, parseBare]
  split_ifs with hscheme
  · obtain ⟨w, rfl⟩ := List.isPrefixOf_iff_prefix.mp hscheme
    rw [accepts_run_iff _ 4 {} (le_refl _) (by simp [scheme]) (by simp) (by simp [Ordered])]
    constructor
    · intro h
      exact ⟨scheme, rfl, w, h, rfl⟩
    · rintro ⟨_, rfl, v, hv, heq⟩
      obtain rfl := List.append_cancel_left heq
      exact hv
  · rw [iff_false_left (not_accepts_error _ _)]
    rintro ⟨_, rfl, v, _, rfl⟩
    exact hscheme (List.isPrefixOf_iff_prefix.mpr ⟨v, rfl⟩)

/-- A string parses exactly when it is a DID URL whose path does not start an
authority, and is a DID exactly when nothing follows the identifier. -/
theorem parse_iff_didURL (s : GoString) :
    ((∃ d, parse s = .ok d) ↔ ∃ d p t, s = d ++ (p ++ t) ∧ d ∈ did ∧ p ∈ pathAbempty ∧
        t ∈ (1 + symbol (is 63) * query) * (1 + symbol (is 35) * fragment) ∧ ¬ [47, 47] <+: p) ∧
      (isDID s ↔ s ∈ did) := by
  constructor
  · have hparse : (∃ d, parse s = .ok d) ↔ Accepts true (parseBare s) := by
      simp [parse, Accepts]
    rw [hparse, accepts_parseBare_iff]
    constructor
    · rintro ⟨d, hd, _, ⟨p, ⟨hp, hauthority⟩, t, ht, rfl⟩, rfl⟩
      exact ⟨d, p, t, rfl, hd, hp, ht, hauthority⟩
    · rintro ⟨d, p, t, rfl, hd, hp, ht, hauthority⟩
      exact ⟨d, hd, p ++ t, ⟨p, ⟨hp, hauthority⟩, t, ht, rfl⟩, rfl⟩
  · have hbare : isDID s ↔ Accepts false (parseBare s) := by
      rw [isDID, Accepts]
      cases parseBare s <;> simp
    rw [hbare, accepts_parseBare_iff]
    simp [idTail]

end Trust.Did
