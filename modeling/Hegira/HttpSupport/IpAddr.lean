/-
# Internet addresses

`std::net::IpAddr` as far as the client address needs it: the parser of an address, the
text an address is shown as, and `to_ipv4_mapped`.  Distinct addresses are shown
differently (`IpAddr.toText_injective`).

Texts are lists of characters.
-/

import Mathlib.Data.List.Basic
import Mathlib.Data.List.Induction
import Mathlib.Tactic.Common

namespace Hegira
namespace HttpSupport

structure Ipv4Addr where
  a : UInt8
  b : UInt8
  c : UInt8
  d : UInt8
  deriving DecidableEq, Repr

/-- The eight segments. -/
structure Ipv6Addr where
  segments : List UInt16
  length_eq : segments.length = 8
  deriving DecidableEq, Repr

inductive IpAddr where
  | v4 (address : Ipv4Addr)
  | v6 (address : Ipv6Addr)
  deriving DecidableEq, Repr

/-- Eight segments are an address. -/
def Ipv6Addr.ofSegments? (segments : List UInt16) : Option Ipv6Addr :=
  if h : segments.length = 8 then some ⟨segments, h⟩ else none

/-- `u16::from_be_bytes`. -/
def fromBeBytes (high low : UInt8) : UInt16 := UInt16.ofNat (high.toNat * 256 + low.toNat)

/-- The address behind the `::ffff:0:0/96` prefix. -/
def Ipv6Addr.toIpv4Mapped (address : Ipv6Addr) : Option Ipv4Addr :=
  if address.segments.take 6 = [0, 0, 0, 0, 0, 0xFFFF] then
    match address.segments.drop 6 with
    | [ab, cd] => some
        ⟨UInt8.ofNat (ab.toNat / 256), UInt8.ofNat ab.toNat,
          UInt8.ofNat (cd.toNat / 256), UInt8.ofNat cd.toNat⟩
    | _ => none
  else none

/-! ### Parsing

Each reader takes what it reads from the front of the text, or fails and takes nothing. -/

/-- `char::to_digit` for the radices 10 and 16. -/
def toDigit (radix : ℕ) (c : Char) : Option ℕ :=
  let value :=
    if '0' ≤ c ∧ c ≤ '9' then c.toNat - '0'.toNat
    else if 'a' ≤ c ∧ c ≤ 'f' then c.toNat - 'a'.toNat + 10
    else if 'A' ≤ c ∧ c ≤ 'F' then c.toNat - 'A'.toNat + 10
    else radix
  if value < radix then some value else none

/-- `read_number` of a type with `size` values. -/
def readNumber (radix maxDigits : ℕ) (allowZeroPrefix : Bool) (size : ℕ) (p : List Char) :
    Option (ℕ × List Char) :=
  let digits := p.takeWhile fun c => (toDigit radix c).isSome
  let value := digits.foldl (fun result c => result * radix + (toDigit radix c).getD 0) 0
  if digits = [] ∨ maxDigits < digits.length then none
  else if ¬allowZeroPrefix ∧ digits.head? = some '0' ∧ 1 < digits.length then none
  else if value < size then some (value, p.drop digits.length) else none

/-- `read_given_char`. -/
def readGivenChar (target : Char) : List Char → Option (List Char)
  | c :: p => if c = target then some p else none
  | [] => none

/-- `read_ipv4_addr`. -/
def readIpv4Addr (p : List Char) : Option (Ipv4Addr × List Char) := do
  let (a, p) ← readNumber 10 3 false 256 p
  let (b, p) ← readNumber 10 3 false 256 (← readGivenChar '.' p)
  let (c, p) ← readNumber 10 3 false 256 (← readGivenChar '.' p)
  let (d, p) ← readNumber 10 3 false 256 (← readGivenChar '.' p)
  return (⟨UInt8.ofNat a, UInt8.ofNat b, UInt8.ofNat c, UInt8.ofNat d⟩, p)

/-- `read_separator(':', index, inner)`. -/
def readSeparator {α : Type} (first : Bool) (inner : List Char → Option α) (p : List Char) :
    Option α :=
  if first then inner p else (readGivenChar ':' p).bind inner

/-- `read_groups` into a slice of the given length: the groups, whether an IPv4 address
ended them, and the rest. -/
def readGroups : ℕ → Bool → List Char → List UInt16 × Bool × List Char
  | 0, _, p => ([], false, p)
  | left + 1, first, p =>
      match if 0 < left then readSeparator first readIpv4Addr p else none with
      | some (⟨a, b, c, d⟩, p) => ([fromBeBytes a b, fromBeBytes c d], true, p)
      | none =>
          match readSeparator first (readNumber 16 4 true 65536) p with
          | some (group, p) =>
              let (groups, ipv4, p) := readGroups left false p
              (UInt16.ofNat group :: groups, ipv4, p)
          | none => ([], false, p)

/-- `read_ipv6_addr`. -/
def readIpv6Addr (p : List Char) : Option (Ipv6Addr × List Char) := do
  let (head, ipv4, p) := readGroups 8 true p
  if head.length = 8 then
    return (← Ipv6Addr.ofSegments? head, p)
  -- An IPv4 part is not allowed before `::`.
  if ipv4 then none
  let p ← readGivenChar ':' (← readGivenChar ':' p)
  let (tail, _, p) := readGroups (8 - (head.length + 1)) true p
  let zeros := List.replicate (8 - head.length - tail.length) 0
  return (← Ipv6Addr.ofSegments? (head ++ zeros ++ tail), p)

/-- `str::parse::<IpAddr>`. -/
def parseIpAddr (text : List Char) : Option IpAddr :=
  match (readIpv4Addr text).map (fun (address, p) => (IpAddr.v4 address, p)) <|>
      (readIpv6Addr text).map fun (address, p) => (IpAddr.v6 address, p) with
  | some (address, []) => some address
  | _ => none

/-! ### Showing -/

/-- The IPv4 text. -/
def Ipv4Addr.toText (address : Ipv4Addr) : List Char :=
  ['.'].intercalate
    ([address.a, address.b, address.c, address.d].map fun byte => Nat.toDigits 10 byte.toNat)

/-- A run of zero segments. -/
structure Span where
  start : ℕ := 0
  len : ℕ := 0
  deriving DecidableEq, Repr

/-- One segment of the search for the longest run: the longest so far and the current. -/
def Span.advance (spans : Span × Span) (segment : UInt16 × ℕ) : Span × Span :=
  if segment.1 = 0 then
    let current : Span :=
      { start := if spans.2.len = 0 then segment.2 else spans.2.start, len := spans.2.len + 1 }
    (if spans.1.len < current.len then current else spans.1, current)
  else (spans.1, {})

/-- The first longest run of zero segments. -/
def zeroes (segments : List UInt16) : Span :=
  (segments.zipIdx.foldl Span.advance ({}, {})).1

def hexSegment (segment : UInt16) : List Char := Nat.toDigits 16 segment.toNat

/-- `fmt_subslice`. -/
def fmtSubslice (chunk : List UInt16) : List Char := [':'].intercalate (chunk.map hexSegment)

/-- The IPv6 text. -/
def Ipv6Addr.toText (address : Ipv6Addr) : List Char :=
  match address.toIpv4Mapped with
  | some ipv4 => "::ffff:".toList ++ ipv4.toText
  | none =>
      let span := zeroes address.segments
      if 1 < span.len then
        fmtSubslice (address.segments.take span.start) ++ ':' :: ':' ::
          fmtSubslice (address.segments.drop (span.start + span.len))
      else fmtSubslice address.segments

/-- `IpAddr::to_string`. -/
def IpAddr.toText : IpAddr → List Char
  | .v4 address => address.toText
  | .v6 address => address.toText

/-! ### Digits -/

/-- Different digits are written differently. -/
theorem digitChar_injOn {a b : ℕ} (ha : a < 16) (hb : b < 16) (h : a.digitChar = b.digitChar) :
    a = b := by
  have hall : ∀ x : Fin 16, ∀ y : Fin 16, x.1.digitChar = y.1.digitChar → x = y := by decide
  exact congrArg Fin.val (hall ⟨a, ha⟩ ⟨b, hb⟩ h)

theorem toDigits_injective {radix : ℕ} (hradix : 1 < radix) (hle : radix ≤ 16) :
    Function.Injective (Nat.toDigits radix) := by
  intro n
  induction n using Nat.strongRecOn with
  | ind n ih =>
      intro m h
      have hone (k : ℕ) (c c' : Char) : [c] ≠ Nat.toDigits radix k ++ [c'] := fun h =>
        Nat.toDigits_ne_nil (List.append_inj' (show [] ++ [c] = _ from h) rfl).1.symm
      rw [Nat.toDigits_eq_if hradix (n := n), Nat.toDigits_eq_if hradix (n := m)] at h
      split at h <;> split at h
      · exact digitChar_injOn (by omega) (by omega) (List.singleton_inj.1 h)
      · exact absurd h (hone _ _ _)
      · exact absurd h.symm (hone _ _ _)
      · obtain ⟨hinit, hlast⟩ := List.append_inj' h rfl
        have hdiv := ih (n / radix) (Nat.div_lt_self (by omega) hradix) hinit
        have hn := Nat.mod_lt n (show radix > 0 by omega)
        have hm := Nat.mod_lt m (show radix > 0 by omega)
        have hmod := digitChar_injOn (by omega) (by omega) (List.singleton_inj.1 hlast)
        rw [← Nat.div_add_mod n radix, ← Nat.div_add_mod m radix, hdiv, hmod]

/-- A character that is no digit is in no number. -/
theorem notMem_toDigits {radix : ℕ} (hradix : 1 < radix) (hle : radix ≤ 16) {c : Char}
    (hc : ∀ d : Fin 16, d.1.digitChar ≠ c) (n : ℕ) : c ∉ Nat.toDigits radix n := by
  induction n using Nat.strongRecOn with
  | ind n ih =>
      rw [Nat.toDigits_eq_if hradix]
      split
      · next hn =>
          rw [List.mem_singleton]
          exact fun h => hc ⟨n, by omega⟩ h.symm
      · next hn =>
          have hmod := Nat.mod_lt n (show radix > 0 by omega)
          rw [List.mem_append, List.mem_singleton, not_or]
          exact ⟨ih _ (Nat.div_lt_self (by omega) hradix),
            fun h => hc ⟨n % radix, by omega⟩ h.symm⟩

theorem hexSegment_injective : Function.Injective hexSegment := fun a b h =>
  UInt16.toNat_inj.1 (toDigits_injective (by decide) (by decide) h)

/-- A segment is written with at least one digit, and no colon or dot. -/
theorem hexSegment_ne_nil (segment : UInt16) : hexSegment segment ≠ [] := Nat.toDigits_ne_nil

theorem colon_notMem_hexSegment (segment : UInt16) : ':' ∉ hexSegment segment :=
  notMem_toDigits (by decide) (by decide) (by decide) _

theorem dot_notMem_hexSegment (segment : UInt16) : '.' ∉ hexSegment segment :=
  notMem_toDigits (by decide) (by decide) (by decide) _

/-! ### IPv4 texts -/

/-- **IPv4.** Different addresses are written differently. -/
theorem Ipv4Addr.toText_injective : Function.Injective Ipv4Addr.toText := by
  rintro ⟨a, b, c, d⟩ ⟨a', b', c', d'⟩ h
  have hsplit (bytes : List UInt8) (hne : bytes ≠ []) :
      (['.'].intercalate (bytes.map fun byte => Nat.toDigits 10 byte.toNat)).splitOn '.' =
        bytes.map fun byte => Nat.toDigits 10 byte.toNat := by
    refine List.splitOn_intercalate '.' (fun l hl => ?_) (by simpa using hne)
    obtain ⟨byte, -, rfl⟩ := List.mem_map.1 hl
    exact notMem_toDigits (by decide) (by decide) (by decide) _
  have htokens := congrArg (List.splitOn '.') h
  rw [toText, toText, hsplit _ (List.cons_ne_nil _ _), hsplit _ (List.cons_ne_nil _ _)] at htokens
  have hbyte : Function.Injective fun byte : UInt8 => Nat.toDigits 10 byte.toNat :=
    fun x y hxy => UInt8.toNat_inj.1 (toDigits_injective (by decide) (by decide) hxy)
  have hbytes := List.map_injective_iff.2 hbyte htokens
  simp only [List.cons.injEq, and_true] at hbytes
  obtain ⟨rfl, rfl, rfl, rfl⟩ := hbytes
  rfl

/-- An IPv4 address is written with dots and without colons. -/
theorem Ipv4Addr.dot_mem_toText (address : Ipv4Addr) : '.' ∈ address.toText := by
  rw [toText, List.map_cons, List.map_cons, List.intercalate_cons_cons]
  simp

theorem Ipv4Addr.colon_notMem_toText (address : Ipv4Addr) : ':' ∉ address.toText := by
  have hbyte (byte : UInt8) : ':' ∉ Nat.toDigits 10 byte.toNat :=
    notMem_toDigits (by decide) (by decide) (by decide) _
  simp [toText, List.intercalate_cons_cons, hbyte]

/-! ### IPv6 texts -/

/-- A span of zeros. -/
def IsZeros (segments : List UInt16) (span : Span) : Prop :=
  ∀ i, span.start ≤ i → i < span.start + span.len → segments[i]? = some 0

/-- A run of zeros stays one when more segments follow. -/
theorem IsZeros.append {segments : List UInt16} {span : Span} (h : IsZeros segments span)
    (rest : List UInt16) : IsZeros (segments ++ rest) span := by
  intro i hlow hhigh
  have hi := h i hlow hhigh
  rw [List.getElem?_append_left (List.getElem?_eq_some_iff.1 hi).1]
  exact hi

/-- The search keeps two spans of zeros, and the current one reaches the end. -/
theorem isZeros_foldl (segments : List UInt16) :
    let spans := segments.zipIdx.foldl Span.advance ({}, {})
    IsZeros segments spans.1 ∧ IsZeros segments spans.2 ∧
      (spans.2.len = 0 ∨ spans.2.start + spans.2.len = segments.length) := by
  have hempty (segments : List UInt16) : IsZeros segments {} :=
    fun i _ h => absurd h (Nat.not_lt_zero i)
  induction segments using List.reverseRecOn with
  | nil => exact ⟨hempty _, hempty _, Or.inl rfl⟩
  | append_singleton segments segment ih =>
      obtain ⟨hlongest, hcurrent, hend⟩ := ih
      rw [List.zipIdx_append, List.foldl_append]
      set spans := segments.zipIdx.foldl Span.advance ({}, {})
      simp only [List.zipIdx_cons, List.zipIdx_nil, List.foldl_cons, List.foldl_nil, Span.advance,
        Nat.zero_add]
      by_cases hzero : segment = 0
      · have hnew : IsZeros (segments ++ [segment])
            { start := if spans.2.len = 0 then segments.length else spans.2.start,
              len := spans.2.len + 1 } := by
          have hlast : (segments ++ [segment])[segments.length]? = some 0 := by
            rw [List.getElem?_concat_length, hzero]
          intro i hlow hhigh
          by_cases hlen : spans.2.len = 0
          · simp only [if_pos hlen] at hlow hhigh
            rw [show i = segments.length by omega]
            exact hlast
          · simp only [if_neg hlen] at hlow hhigh
            by_cases hi : i < segments.length
            · exact hcurrent.append _ i hlow (by omega)
            · rw [show i = segments.length by omega]
              exact hlast
        rw [if_pos hzero]
        refine ⟨?_, hnew, Or.inr ?_⟩
        · split
          · exact hnew
          · exact hlongest.append _
        · simp only [List.length_append, List.length_singleton]
          split <;> omega
      · rw [if_neg hzero]
        exact ⟨hlongest.append _, hempty _, Or.inl rfl⟩

/-- What is left out between the parts of a text is zero. -/
theorem zeroes_spec (segments : List UInt16) :
    segments = segments.take (zeroes segments).start ++
      List.replicate (zeroes segments).len 0 ++
        segments.drop ((zeroes segments).start + (zeroes segments).len) := by
  have hzeros : IsZeros segments (zeroes segments) := (isZeros_foldl segments).1
  generalize zeroes segments = span at hzeros
  have hmiddle : (segments.drop span.start).take span.len = List.replicate span.len 0 := by
    refine List.ext_getElem? fun i => ?_
    rw [List.getElem?_take, List.getElem?_drop, List.getElem?_replicate]
    split
    · exact hzeros _ (Nat.le_add_right ..) (by omega)
    · rfl
  rw [← hmiddle, List.append_assoc, ← List.drop_drop, List.take_append_drop,
    List.take_append_drop]

/-- The parts of a text between its colons. -/
def tokens (chunk : List UInt16) : List (List Char) :=
  if chunk = [] then [[]] else chunk.map hexSegment

/-- The colons of a slice separate its segments. -/
theorem splitOn_fmtSubslice (chunk : List UInt16) :
    (fmtSubslice chunk).splitOn ':' = tokens chunk := by
  rw [tokens]
  split
  · next h =>
      rw [h]
      rfl
  · next h =>
      refine List.splitOn_intercalate ':' (fun l hl => ?_) (by simpa using h)
      obtain ⟨segment, -, rfl⟩ := List.mem_map.1 hl
      exact colon_notMem_hexSegment segment

/-- How the text of an address that is not a mapped one is split. -/
theorem Ipv6Addr.splitOn_toText {address : Ipv6Addr} (h : address.toIpv4Mapped = none) :
    address.toText.splitOn ':' = address.segments.map hexSegment ∨
      ∃ head tail n, address.segments = head ++ List.replicate n 0 ++ tail ∧
        address.toText.splitOn ':' = tokens head ++ [] :: tokens tail := by
  rw [toText, h]
  by_cases hspan : 1 < (zeroes address.segments).len
  · refine Or.inr ⟨_, _, _, zeroes_spec address.segments, ?_⟩
    simp only [if_pos hspan]
    have hcolon (text : List Char) : (':' :: text).splitOn ':' = [] :: text.splitOn ':' :=
      List.splitOn_append_cons_self_of_not_mem List.not_mem_nil text
    rw [List.splitOn_append_cons_self, splitOn_fmtSubslice, hcolon, splitOn_fmtSubslice]
  · refine Or.inl ?_
    have hne : address.segments ≠ [] := by
      intro he
      have := address.length_eq
      rw [he] at this
      cases this
    simp only [if_neg hspan]
    rw [splitOn_fmtSubslice, tokens, if_neg hne]

/-- The named segments before the gap are the tokens before the first empty one. -/
theorem takeWhile_tokens (chunk : List UInt16) (rest : List (List Char)) :
    (tokens chunk ++ [] :: rest).takeWhile (· ≠ []) = chunk.map hexSegment := by
  rw [tokens]
  split
  · next h =>
      rw [h]
      rfl
  · have hall : ∀ l ∈ chunk.map hexSegment, decide (l ≠ []) = true := by
      intro l hl
      obtain ⟨segment, -, rfl⟩ := List.mem_map.1 hl
      exact decide_eq_true (hexSegment_ne_nil segment)
    rw [List.takeWhile_append_of_pos hall, List.takeWhile_cons_of_neg (by simp), List.append_nil]

/-- And those behind it are the tokens behind the last empty one. -/
theorem takeWhile_reverse_tokens (chunk : List UInt16) (rest : List (List Char)) :
    (rest ++ [] :: tokens chunk).reverse.takeWhile (· ≠ []) =
      (chunk.map hexSegment).reverse := by
  have htokens : (tokens chunk).reverse = tokens chunk.reverse := by
    by_cases h : chunk = []
    · rw [h]
      rfl
    · rw [tokens, tokens, if_neg h, if_neg (by simpa using h), List.map_reverse]
  rw [List.reverse_append, List.reverse_cons, htokens, List.append_assoc, List.singleton_append,
    takeWhile_tokens, List.map_reverse]

/-- An address is its segments. -/
theorem Ipv6Addr.ext {a b : Ipv6Addr} (h : a.segments = b.segments) : a = b := by
  cases a
  cases b
  obtain rfl := h
  rfl

/-- Two addresses that are not mapped and read alike are equal. -/
theorem Ipv6Addr.eq_of_splitOn_toText {a b : Ipv6Addr} (ha : a.toIpv4Mapped = none)
    (hb : b.toIpv4Mapped = none) (h : a.toText = b.toText) : a = b := by
  have hfull (segments : List UInt16) (head tail : List UInt16) :
      segments.map hexSegment ≠ tokens head ++ [] :: tokens tail := by
    intro he
    have hmem : [] ∈ segments.map hexSegment := by
      rw [he]
      exact List.mem_append_right _ List.mem_cons_self
    obtain ⟨segment, -, hsegment⟩ := List.mem_map.1 hmem
    exact hexSegment_ne_nil segment hsegment
  refine Ipv6Addr.ext ?_
  have hsegments := List.map_injective_iff.2 hexSegment_injective
  obtain hta | ⟨head, tail, n, hsa, hta⟩ := splitOn_toText ha <;>
    obtain htb | ⟨head', tail', n', hsb, htb⟩ := splitOn_toText hb <;>
      rw [h, htb] at hta
  · exact hsegments hta.symm
  · exact absurd hta.symm (hfull _ _ _)
  · exact absurd hta (hfull _ _ _)
  · -- Both texts have a gap: the same segments stand before it and behind it.
    have hhead : head = head' := by
      have := congrArg (List.takeWhile (· ≠ [])) hta
      rw [takeWhile_tokens, takeWhile_tokens] at this
      exact (hsegments this).symm
    have htail : tail = tail' := by
      have := congrArg (fun l => l.reverse.takeWhile (· ≠ [])) hta
      simp only [takeWhile_reverse_tokens] at this
      exact (hsegments (List.reverse_injective this)).symm
    have hlength := a.length_eq.trans b.length_eq.symm
    subst hhead htail
    rw [hsa, hsb] at hlength ⊢
    simp only [List.length_append, List.length_replicate] at hlength
    rw [show n = n' by omega]

/-- A slice is written without dots. -/
theorem dot_notMem_fmtSubslice (chunk : List UInt16) : '.' ∉ fmtSubslice chunk := by
  induction chunk with
  | nil => exact List.not_mem_nil
  | cons segment chunk ih =>
      cases chunk with
      | nil =>
          rw [fmtSubslice, List.map_singleton, List.intercalate_singleton]
          exact dot_notMem_hexSegment segment
      | cons segment' chunk =>
          rw [fmtSubslice, List.map_cons, List.map_cons, List.intercalate_cons_cons,
            List.mem_append, List.mem_append, List.mem_singleton]
          rintro ((h | h) | h)
          · exact dot_notMem_hexSegment segment h
          · exact absurd h (by decide)
          · exact ih h

/-- The text of a mapped address ends in an IPv4 text; no other IPv6 text has a dot. -/
theorem Ipv6Addr.dot_mem_toText {address : Ipv6Addr} :
    '.' ∈ address.toText ↔ address.toIpv4Mapped ≠ none := by
  rw [toText]
  cases h : address.toIpv4Mapped with
  | none =>
      refine iff_of_false ?_ (fun hne => hne rfl)
      simp only
      split
      · rw [List.mem_append, List.mem_cons, List.mem_cons]
        rintro (h | h | h | h)
        · exact dot_notMem_fmtSubslice _ h
        · exact absurd h (by decide)
        · exact absurd h (by decide)
        · exact dot_notMem_fmtSubslice _ h
      · exact dot_notMem_fmtSubslice _
  | some ipv4 =>
      exact iff_of_true (List.mem_append_right _ ipv4.dot_mem_toText) (Option.some_ne_none _)

/-- An IPv6 address is written with colons. -/
theorem Ipv6Addr.colon_mem_toText (address : Ipv6Addr) : ':' ∈ address.toText := by
  cases h : address.toIpv4Mapped with
  | some ipv4 =>
      rw [toText, h]
      exact List.mem_append_left _ (by decide)
  | none =>
      by_contra hnone
      have hone := List.splitOn_eq_singleton hnone
      obtain htokens | ⟨head, tail, n, -, htokens⟩ := splitOn_toText h
      · have := congrArg List.length (htokens.symm.trans hone)
        rw [List.length_map, address.length_eq] at this
        cases this
      · have := congrArg List.length (htokens.symm.trans hone)
        have hpos (chunk : List UInt16) : 0 < (tokens chunk).length := by
          rw [← splitOn_fmtSubslice]
          exact List.length_pos_of_ne_nil (List.splitOn_ne_nil _ _)
        have := hpos head
        rw [List.length_append, List.length_cons, List.length_singleton] at *
        omega

/-- The segments of a mapped address. -/
theorem Ipv6Addr.segments_of_toIpv4Mapped {address : Ipv6Addr} {ipv4 : Ipv4Addr}
    (h : address.toIpv4Mapped = some ipv4) : address.segments =
      [0, 0, 0, 0, 0, 0xFFFF, fromBeBytes ipv4.a ipv4.b, fromBeBytes ipv4.c ipv4.d] := by
  have hbytes (segment : UInt16) : fromBeBytes (UInt8.ofNat (segment.toNat / 256))
      (UInt8.ofNat segment.toNat) = segment := by
    have := segment.toNat_lt
    rw [← UInt16.toNat_inj, fromBeBytes, UInt16.toNat_ofNat', UInt8.toNat_ofNat',
      UInt8.toNat_ofNat']
    omega
  rw [toIpv4Mapped] at h
  split at h
  · next htake =>
      split at h
      · next ab cd hdrop =>
          obtain rfl := Option.some.inj h
          rw [← List.take_append_drop 6 address.segments, htake, hdrop, hbytes, hbytes]
          rfl
      · cases h
  · cases h

/-- A mapped address is its IPv4 address. -/
theorem Ipv6Addr.toIpv4Mapped_inj {a b : Ipv6Addr} {address : Ipv4Addr}
    (ha : a.toIpv4Mapped = some address) (hb : b.toIpv4Mapped = some address) : a = b :=
  Ipv6Addr.ext ((segments_of_toIpv4Mapped ha).trans (segments_of_toIpv4Mapped hb).symm)

/-- **IPv6.** Different addresses are written differently. -/
theorem Ipv6Addr.toText_injective : Function.Injective Ipv6Addr.toText := by
  intro a b h
  cases ha : a.toIpv4Mapped with
  | none =>
      cases hb : b.toIpv4Mapped with
      | none => exact eq_of_splitOn_toText ha hb h
      | some address =>
          have := dot_mem_toText.2 (show b.toIpv4Mapped ≠ none by rw [hb]; simp)
          rw [← h] at this
          exact absurd ha (dot_mem_toText.1 this)
  | some address =>
      cases hb : b.toIpv4Mapped with
      | none =>
          have := dot_mem_toText.2 (show a.toIpv4Mapped ≠ none by rw [ha]; simp)
          rw [h] at this
          exact absurd hb (dot_mem_toText.1 this)
      | some address' =>
          rw [toText, toText, ha, hb] at h
          obtain rfl := Ipv4Addr.toText_injective (List.append_cancel_left h)
          exact toIpv4Mapped_inj ha hb

/-- **Distinct addresses are shown differently.** -/
theorem IpAddr.toText_injective : Function.Injective IpAddr.toText := by
  intro a b h
  cases a with
  | v4 a =>
      cases b with
      | v4 b => exact congrArg IpAddr.v4 (Ipv4Addr.toText_injective h)
      | v6 b =>
          have := b.colon_mem_toText
          rw [show b.toText = a.toText from h.symm] at this
          exact absurd this a.colon_notMem_toText
  | v6 a =>
      cases b with
      | v4 b =>
          have := a.colon_mem_toText
          rw [show a.toText = b.toText from h] at this
          exact absurd this b.colon_notMem_toText
      | v6 b => exact congrArg IpAddr.v6 (Ipv6Addr.toText_injective h)

end HttpSupport
end Hegira
