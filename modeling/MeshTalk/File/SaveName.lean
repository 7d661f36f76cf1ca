import Mathlib.Data.List.DropRight
import Mathlib.Data.Nat.Digits.Lemmas

/-! # Names for received files

A remote name is made a single legal component of a path (`util/savename.rs`), and a counter finds a
name that is free in a directory. Names are lists of Unicode characters, with the bytes of their
encoding. -/

namespace MeshTalk.File.SaveName

open List

abbrev Name := List Char

/-! ### Cleaning -/

/-- Characters that some system refuses in names, the separators and the control characters. -/
def isIllegalChar (c : Char) : Bool :=
  c ∈ ['/', '\\', ':', '*', '?', '"', '<', '>', '|'] || c.toNat < 0x20

def isWhitespace (c : Char) : Bool :=
  (9 ≤ c.toNat && c.toNat ≤ 13) || (0x2000 ≤ c.toNat && c.toNat ≤ 0x200a) ||
    c.toNat ∈ [0x20, 0x85, 0xa0, 0x1680, 0x2028, 0x2029, 0x202f, 0x205f, 0x3000]

def trim (name : Name) : Name := (name.dropWhile isWhitespace).rdropWhile isWhitespace

def lastSegment (raw : Name) : Name := raw.rtakeWhile fun c => c ≠ '/' && c ≠ '\\'

/-- Reserved names of devices, and what follows `COM` and `LPT` in the others. -/
def devices : List Name := ["CON", "PRN", "AUX", "NUL", "CONIN$", "CONOUT$"].map String.toList

def ports : List Name :=
  ["0", "1", "2", "3", "4", "5", "6", "7", "8", "9", "¹", "²", "³"].map String.toList

def isReserved (stem : Name) : Bool :=
  stem.map Char.toUpper ∈ devices ++ ports.map ("COM".toList ++ ·) ++ ports.map ("LPT".toList ++ ·)

def firstPart (name : Name) : Name := name.takeWhile (· ≠ '.')

def byteLen (name : Name) : ℕ := (name.map Char.utf8Size).sum

def fallback : Name := "file".toList

def cleanName (raw : Name) : Name :=
  let tail := trim (lastSegment raw)
  if tail = [] ∨ tail = ['.'] ∨ tail = ['.', '.'] then fallback
  else
    let cleaned := (tail.map fun c => if isIllegalChar c then '_' else c).rdropWhile
      fun c => c = ' ' || c = '.'
    if cleaned = [] then fallback
    else if isReserved (firstPart cleaned) then '_' :: cleaned else cleaned

/-! ### Capping -/

/-- The longest initial part of at most `max` bytes. -/
def floorCharBoundary : Name → ℕ → Name
  | [], _ => []
  | c :: cs, max => if c.utf8Size ≤ max then c :: floorCharBoundary cs (max - c.utf8Size) else []

/-- The name before its last dot, and the rest of it; a dot in front does not count. -/
def splitExt (name : Name) : Name × Name :=
  let stem := (name.rdropWhile (· ≠ '.')).dropLast
  if stem = [] then (name, []) else (stem, '.' :: name.rtakeWhile (· ≠ '.'))

/-- Cut a name to at most `max` bytes, in its stem if the extension fits. -/
def truncateKeepingExt (name : Name) (max : ℕ) : Name :=
  if (splitExt name).2 ≠ [] ∧ byteLen (splitExt name).2 + 1 < max then
    floorCharBoundary (splitExt name).1 (max - byteLen (splitExt name).2) ++ (splitExt name).2
  else floorCharBoundary name max

/-- **A remote name as a component of a path.** -/
def sanitizeFilename (raw : Name) : Name :=
  if 200 < byteLen (cleanName raw) then truncateKeepingExt (cleanName raw) 200 else cleanName raw

/-! ### Free names -/

def decimal (n : ℕ) : Name := (Nat.digits 10 n).reverse.map Nat.digitChar

def stripCounter (stem : Name) : Name :=
  match stem.reverse with
  | ')' :: rest =>
    match rest.dropWhile Char.isDigit with
    | '(' :: ' ' :: base => if rest.takeWhile Char.isDigit ≠ [] then base.reverse else stem
    | _ => stem
  | _ => stem

def counted (stem ext : Name) (n : ℕ) : Name := stem ++ (" (".toList ++ (decimal n ++ ')' :: ext))

def withCounter (name : Name) (n : ℕ) : Name :=
    counted (stripCounter (splitExt name).1) (splitExt name).2 n

inductive Entry
  | absent
  | present
  | dangling
deriving DecidableEq

/-- `Path::exists` follows links. -/
def Entry.isThere (e : Entry) : Bool := e = .present

def isWithin (name : Name) : Bool := '/' ∉ name && name ≠ ['.'] && name ≠ ['.', '.']

def firstFree (dir : Name → Entry) (name : Name) : ℕ → ℕ → Option Name
  | 0, _ => none
  | fuel + 1, n =>
    if !isWithin (withCounter name n) then none
    else if !(dir (withCounter name n)).isThere then some (withCounter name n)
    else firstFree dir name fuel (n + 1)

/-- **The component under which a file is saved in a directory.** -/
def safeSavePath (dir : Name → Entry) (raw : Name) : Option Name :=
  if !isWithin (sanitizeFilename raw) then none
  else if !(dir (sanitizeFilename raw)).isThere then some (sanitizeFilename raw)
  else firstFree dir (sanitizeFilename raw) (2 ^ 32 - 1) 1

/-! ### Clean names -/

/-- What cleaning is to give. -/
structure Clean (name : Name) : Prop where
  nonempty : name ≠ []
  component : isWithin name = true
  legal : ∀ c ∈ name, isIllegalChar c = false
  ends : ∀ c, name.getLast? = some c → c ≠ '.' ∧ c ≠ ' '
  device : isReserved (firstPart name) = false

theorem isWithin_of {name} (hlegal : ∀ c ∈ name, isIllegalChar c = false)
    (hends : ∀ c, name.getLast? = some c → c ≠ '.' ∧ c ≠ ' ') : isWithin name = true := by
  have hslash : '/' ∉ name := fun h => absurd (hlegal _ h) (by decide)
  have hdot : name ≠ ['.'] := fun h => (hends '.' (by rw [h]; rfl)).1 rfl
  have hdots : name ≠ ['.', '.'] := fun h => (hends '.' (by rw [h]; rfl)).1 rfl
  simp [isWithin, hslash, hdot, hdots]

theorem reserved_spec {stem} (h : isReserved stem = true) :
    stem.length ≤ 7 ∧ ' ' ∉ stem ∧ '_' ∉ stem ∧ '.' ∉ stem := by
  have hall : ∀ d ∈ devices ++ ports.map ("COM".toList ++ ·) ++ ports.map ("LPT".toList ++ ·),
      d.length ≤ 7 ∧ ' ' ∉ d ∧ '_' ∉ d ∧ '.' ∉ d := by decide
  obtain ⟨hlen, hspace, hline, hdot⟩ := hall _ (of_decide_eq_true h)
  rw [length_map] at hlen
  exact ⟨hlen, fun hs => hspace (mem_map.mpr ⟨' ', hs, rfl⟩), fun hs =>
    hline (mem_map.mpr ⟨'_', hs, rfl⟩), fun hs => hdot (mem_map.mpr ⟨'.', hs, rfl⟩)⟩

theorem cleanName_clean (raw) : Clean (cleanName raw) := by
  have hlegal : fallback.all (fun c => !isIllegalChar c) = true := by decide
  have hfallback : Clean fallback := by
    refine ⟨by decide, by decide, fun c hc => by simpa using all_eq_true.mp hlegal c hc, fun c hc =>
      ?_, by decide⟩
    cases hc
    decide
  unfold cleanName
  dsimp only
  split_ifs with htail hempty hreserved
  · exact hfallback
  · exact hfallback
  all_goals
    generalize hcleaned :
      ((trim (lastSegment raw)).map fun c => if isIllegalChar c then '_' else c).rdropWhile
      (fun c => c = ' ' || c = '.') = cleaned at *
    have hlegal : ∀ c ∈ cleaned, isIllegalChar c = false := by
      intro c hc
      have hmem := ( rdropWhile_prefix (p := fun c => c = ' ' || c = '.') _).subset (hcleaned ▸ hc)
      obtain ⟨d, -, rfl⟩ := mem_map.mp hmem
      by_cases hd : isIllegalChar d = true
      · rw [if_pos hd]
        decide
      · rw [if_neg hd]
        exact Bool.eq_false_iff.mpr hd
    have hends : ∀ c, cleaned.getLast? = some c → c ≠ '.' ∧ c ≠ ' ' := by
      intro c hc
      subst hcleaned
      have hlast := rdropWhile_last_not (p := fun c => c = ' ' || c = '.') _ hempty
      rw [getLast?_eq_some_getLast hempty, Option.some.injEq] at hc
      rw [hc] at hlast
      simp only [Bool.or_eq_true, decide_eq_true_eq, not_or] at hlast
      exact ⟨hlast.2, hlast.1⟩
  · have hlegal' : ∀ c ∈ '_' :: cleaned, isIllegalChar c = false := by
      intro c hc
      rcases mem_cons.mp hc with rfl | hc
      · decide
      · exact hlegal c hc
    have hends' : ∀ c, ('_' :: cleaned).getLast? = some c → c ≠ '.' ∧ c ≠ ' ' := by
      intro c hc
      rw [getLast?_cons_of_ne_nil hempty] at hc
      exact hends c hc
    refine ⟨cons_ne_nil _ _, isWithin_of hlegal' hends', hlegal', hends', ?_⟩
    exact Bool.eq_false_iff.mpr fun h => (reserved_spec h).2.2.1 (by simp [firstPart])
  · exact ⟨hempty, isWithin_of hlegal hends, hlegal, hends, Bool.eq_false_iff.mpr hreserved⟩

/-! ### What the cap keeps -/

theorem splitExt_append (name) : (splitExt name).1 ++ (splitExt name).2 = name := by
  unfold splitExt
  dsimp only
  split_ifs with h
  · exact append_nil _
  · have hne : name.rdropWhile (· ≠ '.') ≠ [] := fun hnil => h (by rw [hnil]; rfl)
    have hlast := rdropWhile_last_not (p := fun c => decide (c ≠ '.')) _ hne
    have hdot : (name.rdropWhile (· ≠ '.')).getLast hne = '.' := by simpa using hlast
    calc (name.rdropWhile (· ≠ '.')).dropLast ++ '.' :: name.rtakeWhile (· ≠ '.')
        = ((name.rdropWhile (· ≠ '.')).dropLast ++ [(name.rdropWhile (· ≠ '.')).getLast hne]) ++
            name.rtakeWhile (· ≠ '.') := by rw [hdot, append_assoc]; rfl
      _ = name := by rw [dropLast_append_getLast, rdropWhile_append_rtakeWhile]

theorem splitExt_ext (name) : (splitExt name).2 = [] ∨ ∃ t, (splitExt name).2 = '.' :: t := by
  unfold splitExt
  dsimp only
  split_ifs
  · exact .inl rfl
  · exact .inr ⟨_, rfl⟩

theorem prefix_floorCharBoundary : ∀ (name : Name) (max : ℕ), floorCharBoundary name max <+: name
  | [], _ => prefix_rfl
  | c :: cs, max => by
    unfold floorCharBoundary
    split_ifs
    · exact cons_prefix_cons.mpr ⟨rfl, prefix_floorCharBoundary cs _⟩
    · exact nil_prefix

theorem byteLen_floor : ∀ (name : Name) (max : ℕ), byteLen (floorCharBoundary name max) ≤ max ∧
    (floorCharBoundary name max = name ∨ max < byteLen (floorCharBoundary name max) + 4)
  | [], max => ⟨Nat.zero_le _, .inl rfl⟩
  | c :: cs, max => by
    have hsize := c.utf8Size_le_four
    unfold floorCharBoundary
    split_ifs with h
    · obtain ⟨hle, hcut⟩ := byteLen_floor cs (max - c.utf8Size)
      have hsum : byteLen (c :: floorCharBoundary cs (max - c.utf8Size)) =
          c.utf8Size + byteLen (floorCharBoundary cs (max - c.utf8Size)) := by simp [byteLen]
      refine ⟨by omega, ?_⟩
      rcases hcut with hcut | hcut
      · exact .inl (by rw [hcut])
      · exact .inr (by omega)
    · exact ⟨Nat.zero_le _, .inr (by simp only [byteLen, map_nil, sum_nil]; omega)⟩

theorem byteLen_append (s t) : byteLen (s ++ t) = byteLen s + byteLen t := by simp [byteLen]

theorem byteLen_le (name) : byteLen name ≤ 4 * name.length := by
  induction name with
  | nil => exact Nat.zero_le _
  | cons c cs ih =>
    have hsize := c.utf8Size_le_four
    simp only [byteLen, map_cons, sum_cons, length_cons] at ih ⊢
    omega

theorem byteLen_sanitize (raw) : byteLen (sanitizeFilename raw) ≤ 200 := by
  unfold sanitizeFilename truncateKeepingExt
  split_ifs with hlong hext
  · have := (byteLen_floor (splitExt (cleanName raw)).1
      (200 - byteLen (splitExt (cleanName raw)).2)).1
    rw [byteLen_append]
    omega
  · exact (byteLen_floor _ _).1
  · exact not_lt.mp hlong

/-- The first part of a name that has a dot in it does not depend on what follows. -/
theorem firstPart_append {s} (h : '.' ∈ s) (t) : firstPart (s ++ t) = firstPart s := by
  unfold firstPart
  rw [takeWhile_append, if_neg]
  intro hlen
  have hself := ( takeWhile_prefix (fun c => decide (c ≠ '.'))).eq_of_length hlen
  exact absurd (mem_takeWhile_imp (hself.symm ▸ h)) (by decide)

theorem firstPart_of_notMem {s t} (h : '.' ∉ s) (ht : t = [] ∨ ∃ u, t = '.' :: u) :
    firstPart (s ++ t) = s := by
  unfold firstPart
  rw [takeWhile_append_of_pos fun c hc => by simpa using fun hd : c = '.' => h (hd ▸ hc)]
  rcases ht with rfl | ⟨u, rfl⟩ <;> simp

/-- A name is clean if it ends like a clean one whose beginning it shares, up to a first part that
is no device. -/
theorem Clean.rejoin {name s ext front} (h : Clean name) (hname : front ++ ext = name)
    (hs : s ++ ext ≠ []) (hlegal : ∀ c ∈ s, isIllegalChar c = false)
    (hends : ext = [] → ∀ c, s.getLast? = some c → c ≠ '.' ∧ c ≠ ' ')
    (hdevice : isReserved (firstPart (s ++ ext)) = false) : Clean (s ++ ext) := by
  have hlegal' : ∀ c ∈ s ++ ext, isIllegalChar c = false := by
    intro c hc
    rcases mem_append.mp hc with hc | hc
    · exact hlegal c hc
    · exact h.legal c (hname ▸ mem_append_right _ hc)
  have hends' : ∀ c, (s ++ ext).getLast? = some c → c ≠ '.' ∧ c ≠ ' ' := by
    intro c hc
    cases hext : ext with
    | nil =>
      rw [hext, append_nil] at hc
      exact hends hext c hc
    | cons d ds =>
      refine h.ends c ?_
      rw [← hname]
      rw [hext, getLast?_append_of_ne_nil _ (cons_ne_nil _ _)] at hc ⊢
      exact hc
  exact ⟨hs, isWithin_of hlegal' hends', hlegal', hends', hdevice⟩

/-- A cut leaves no device of a stem, and no dot or space at the end of a name. -/
def CutsWell (name : Name) : Prop :=
  byteLen name ≤ 200 ∨
    if (splitExt name).2 ≠ [] ∧ byteLen (splitExt name).2 + 1 < 200 then
      isReserved (floorCharBoundary (splitExt name).1 (200 - byteLen (splitExt name).2)) = false
    else (floorCharBoundary name 200).getLast? ∉ [some '.', some ' ']

instance (name : Name) : Decidable (CutsWell name) := by unfold CutsWell; infer_instance

/-- The device check of a name stays good for an initial part that has a dot. -/
theorem Clean.device_of_dot {name s rest} (h : Clean name) (hname : s ++ rest = name)
    (hdot : '.' ∈ s) (t) :
    isReserved (firstPart (s ++ t)) = false := by
  rw [firstPart_append hdot, ← firstPart_append hdot rest, hname]
  exact h.device

/-- **When a cut name is clean.** -/
theorem Clean.sanitize_iff (raw) : Clean (sanitizeFilename raw) ↔ CutsWell (cleanName raw) := by
  have hclean := cleanName_clean raw
  unfold sanitizeFilename truncateKeepingExt CutsWell
  generalize cleanName raw = name at *
  by_cases hlong : 200 < byteLen name
  swap
  · rw [if_neg hlong]
    exact ⟨fun _ => .inl (not_lt.mp hlong), fun _ => hclean⟩
  rw [if_pos hlong, or_iff_right (not_le.mpr hlong)]
  split_ifs with hext
  · -- the cut is in the stem
    have hsplit := splitExt_append name
    obtain ⟨rest, hrest⟩ := prefix_floorCharBoundary (splitExt name).1
      (200 - byteLen (splitExt name).2)
    have hname : floorCharBoundary (splitExt name).1 (200 - byteLen (splitExt name).2) ++
        (rest ++ (splitExt name).2) = name := by
      rw [← append_assoc, hrest, hsplit]
    constructor
    · intro h
      refine Bool.eq_false_iff.mpr fun hres => ?_
      have hdevice := h.device
      rw [firstPart_of_notMem (reserved_spec hres).2.2.2 (splitExt_ext _), hres] at hdevice
      cases hdevice
    · intro h
      refine hclean.rejoin hsplit (by simp [hext.1]) (fun c hc => ?_)
        (fun hnil => absurd hnil hext.1) ?_
      · exact hclean.legal c (hname ▸ mem_append_left _ hc)
      · by_cases hdot : '.' ∈ floorCharBoundary (splitExt name).1 (200 - byteLen (splitExt name).2)
        · exact hclean.device_of_dot hname hdot _
        · rw [firstPart_of_notMem hdot (splitExt_ext _)]
          exact h
  · -- the cut is at the end
    obtain ⟨rest, hrest⟩ := prefix_floorCharBoundary name 200
    obtain ⟨hle, hcut⟩ := byteLen_floor name 200
    have hbytes : 196 < byteLen (floorCharBoundary name 200) := by
      rcases hcut with hcut | hcut
      · rw [hcut] at hle
        omega
      · omega
    have hlen := byteLen_le (floorCharBoundary name 200)
    have hends : (floorCharBoundary name 200).getLast? ∉ [some '.', some ' '] ↔
        ∀ c, (floorCharBoundary name 200).getLast? = some c → c ≠ '.' ∧ c ≠ ' ' := by
      simp only [mem_cons, not_mem_nil, or_false, not_or]
      constructor
      · rintro ⟨hd, hs⟩ c hc
        exact ⟨fun he => hd (he ▸ hc), fun he => hs (he ▸ hc)⟩
      · exact fun h => ⟨fun he => (h _ he).1 rfl, fun he => (h _ he).2 rfl⟩
    rw [hends]
    refine ⟨Clean.ends, fun h => ?_⟩
    have hjoin := hclean.rejoin (s := floorCharBoundary name 200) (append_nil name) (fun hnil => ?_)
      (fun c hc => hclean.legal c (hrest ▸ mem_append_left _ hc)) (fun _ => h) ?_
    · rwa [append_nil] at hjoin
    · rw [append_nil] at hnil
      rw [hnil] at hbytes
      cases hbytes
    · by_cases hdot : '.' ∈ floorCharBoundary name 200
      · exact hclean.device_of_dot hrest hdot _
      · rw [firstPart_of_notMem hdot (.inl rfl)]
        refine Bool.eq_false_iff.mpr fun hres => ?_
        have := (reserved_spec hres).1
        omega

/-! ### What a counter keeps -/

theorem decimal_legal {n c} (h : c ∈ decimal n) : isIllegalChar c = false := by
  obtain ⟨d, hd, rfl⟩ := mem_map.mp h
  have hlt : d < 10 := Nat.digits_lt_base (by decide) (mem_reverse.mp hd)
  interval_cases d <;> decide

theorem prefix_stripCounter (stem) : stripCounter stem <+: stem := by
  unfold stripCounter
  split
  · next rest hrev =>
    split
    · next base hdrop =>
      split_ifs
      · have hsuffix : base <:+ stem.reverse := by
          rw [hrev]
          refine IsSuffix.trans ?_ (suffix_cons _ _)
          exact IsSuffix.trans ⟨['(', ' '], by rw [hdrop]; rfl⟩ (dropWhile_suffix _)
        simpa using reverse_prefix.mpr hsuffix
      · exact prefix_rfl
    · exact prefix_rfl
  · exact prefix_rfl

theorem Clean.withCounter {name} (h : Clean name) (n) : Clean (withCounter name n) := by
  have hsplit := splitExt_append name
  obtain ⟨rest, hrest⟩ := prefix_stripCounter (splitExt name).1
  have hname : stripCounter (splitExt name).1 ++ (rest ++ (splitExt name).2) = name := by
    rw [← append_assoc, hrest, hsplit]
  have heq : SaveName.withCounter name n =
      (stripCounter (splitExt name).1 ++ (" (".toList ++ (decimal n ++ [')']))) ++
        (splitExt name).2 := by
    simp [SaveName.withCounter, counted]
  rw [heq]
  refine h.rejoin hsplit (by simp) (fun c hc => ?_) (fun _ c hc => ?_) ?_
  · simp only [mem_append, mem_singleton] at hc
    rcases hc with hc | hc | hc | rfl
    · exact h.legal c (hname ▸ mem_append_left _ hc)
    · have hopen : " (".toList.all (fun c => !isIllegalChar c) = true := by decide
      simpa using all_eq_true.mp hopen c hc
    · exact decimal_legal hc
    · decide
  · have hlast : (stripCounter (splitExt name).1 ++
      (" (".toList ++ (decimal n ++ [')']))).getLast? = some ')' := by
      rw [← append_assoc, ← append_assoc, getLast?_concat]
    obtain rfl := Option.mem_unique hlast hc
    decide
  · by_cases hdot : '.' ∈ stripCounter (splitExt name).1
    · rw [append_assoc, firstPart_append hdot,
        ← firstPart_append hdot (rest ++ (splitExt name).2), hname]
      exact h.device
    · rw [firstPart_of_notMem _ (splitExt_ext _)]
      · refine Bool.eq_false_iff.mpr fun hres => (reserved_spec hres).2.1 ?_
        simp
      · have hdigits : '.' ∉ decimal n := by
          intro hmem
          obtain ⟨d, hd, heq⟩ := mem_map.mp hmem
          have hlt : d < 10 := Nat.digits_lt_base (by decide) (mem_reverse.mp hd)
          interval_cases d <;> cases heq
        simp [hdot, hdigits]

/-- The names that are tried, the first one without a counter. -/
def candidate (raw : Name) : ℕ → Name
  | 0 => sanitizeFilename raw
  | n + 1 => withCounter (sanitizeFilename raw) (n + 1)

theorem Clean.candidate {raw} (h : Clean (sanitizeFilename raw)) : ∀ n, Clean (candidate raw n)
  | 0 => h
  | n + 1 => h.withCounter (n + 1)

theorem firstFree_eq_some {dir name path} (h : Clean name) : ∀ {fuel n},
    firstFree dir name fuel n = some path ↔ ∃ k, n ≤ k ∧ k < n + fuel ∧ path = withCounter name k ∧
      (dir path).isThere = false ∧ ∀ j, n ≤ j → j < k → (dir (withCounter name j)).isThere = true
  | 0, n => by
    constructor
    · intro hnone
      cases hnone
    · rintro ⟨k, hk, hlt, -⟩
      omega
  | fuel + 1, n => by
    unfold firstFree
    rw [if_neg (by simp [(h.withCounter n).component])]
    cases hfree : (dir (withCounter name n)).isThere with
    | false =>
      rw [if_pos (by simp), Option.some.injEq]
      constructor
      · rintro rfl
        exact ⟨n, le_rfl, by omega, rfl, hfree, fun j hj hlt => by omega⟩
      · rintro ⟨k, hk, -, rfl, -, hall⟩
        by_contra hne
        have hlt : n < k := lt_of_le_of_ne hk fun heq => hne (by rw [heq])
        rw [hall n le_rfl hlt] at hfree
        cases hfree
    | true =>
      rw [if_neg (by simp), firstFree_eq_some h]
      constructor
      · rintro ⟨k, hk, hlt, hp, hf, hall⟩
        refine ⟨k, by omega, by omega, hp, hf, fun j hj hjk => ?_⟩
        rcases hj.eq_or_lt with rfl | hj
        · exact hfree
        · exact hall j hj hjk
      · rintro ⟨k, hk, hlt, rfl, hf, hall⟩
        have hne : n ≠ k := fun heq => by rw [← heq, hfree] at hf; cases hf
        exact ⟨k, by omega, by omega, rfl, hf, fun j hj hjk => hall j (by omega) hjk⟩

/-- **The name that is chosen** is the first of the candidates that is not there. -/
theorem safeSavePath_eq_some {dir raw path} (h : Clean (sanitizeFilename raw)) :
    safeSavePath dir raw = some path ↔ ∃ n < 2 ^ 32, path = candidate raw n ∧
      (dir path).isThere = false ∧ ∀ k < n, (dir (candidate raw k)).isThere = true := by
  have hcount (k : ℕ) (hk : 1 ≤ k) : candidate raw k = withCounter (sanitizeFilename raw) k := by
    obtain ⟨n, rfl⟩ : ∃ n, k = n + 1 := ⟨k - 1, by omega⟩
    rfl
  unfold safeSavePath
  rw [if_neg (by simp [h.component])]
  cases hfree : (dir (sanitizeFilename raw)).isThere with
  | false =>
    rw [if_pos (by simp), Option.some.injEq]
    constructor
    · rintro rfl
      exact ⟨0, by decide, rfl, hfree, fun k hk => by omega⟩
    · rintro ⟨n, -, rfl, -, hall⟩
      cases n with
      | zero => rfl
      | succ n => cases hfree.symm.trans (hall 0 (Nat.succ_pos n))
  | true =>
    rw [if_neg (by simp), firstFree_eq_some h]
    constructor
    · rintro ⟨k, hk, hlt, hp, hf, hall⟩
      refine ⟨k, by omega, hp.trans (hcount k hk).symm, hf, fun j hj => ?_⟩
      cases j with
      | zero => exact hfree
      | succ j => exact hall (j + 1) (by omega) hj
    · rintro ⟨n, hn, rfl, hf, hall⟩
      have hpos : n ≠ 0 := by
        rintro rfl
        cases hfree.symm.trans hf
      exact ⟨n, by omega, by omega, hcount n (by omega), hf,
        fun j hj hjn => by rw [← hcount j hj]; exact hall j hjn⟩

theorem isThere_eq_true {e : Entry} : e.isThere = true ↔ e = .present := decide_eq_true_iff

/-! ### Safe names -/

/-- A control character of Unicode. -/
def isControl (c : Char) : Bool := c.toNat < 0x20 || (0x7f ≤ c.toNat && c.toNat ≤ 0x9f)

/-- A single component that no system refuses or reads otherwise. -/
structure SafeName (name : Name) : Prop where
  nonempty : name ≠ []
  component : isWithin name = true
  legal : ∀ c ∈ name, c ∉ ['/', '\\', ':', '*', '?', '"', '<', '>', '|']
  control : ∀ c ∈ name, isControl c = false
  ends : ∀ c, name.getLast? = some c → c ≠ '.' ∧ c ≠ ' '
  device : isReserved (firstPart name) = false

theorem safeName_iff {name} : SafeName name ↔ Clean name ∧ ∀ c ∈ name, isControl c = false := by
  constructor
  · intro h
    refine ⟨⟨h.nonempty, h.component, fun c hc => ?_, h.ends, h.device⟩, h.control⟩
    have hcontrol := h.control c hc
    simp only [isControl, Bool.or_eq_false_iff] at hcontrol
    rw [isIllegalChar, hcontrol.1, decide_eq_false (h.legal c hc)]
    rfl
  · rintro ⟨h, hcontrol⟩
    refine ⟨h.nonempty, h.component, fun c hc => ?_, hcontrol, h.ends, h.device⟩
    have hlegal := h.legal c hc
    simp only [isIllegalChar, Bool.or_eq_false_iff] at hlegal
    exact of_decide_eq_false hlegal.1

/-- The candidates add no control character. -/
theorem control_candidate {raw} (h : ∀ c ∈ sanitizeFilename raw, isControl c = false) :
    ∀ n, ∀ c ∈ candidate raw n, isControl c = false
  | 0, c, hc => h c hc
  | n + 1, c, hc => by
    have hsplit := splitExt_append (sanitizeFilename raw)
    have hstem := (prefix_stripCounter (splitExt (sanitizeFilename raw)).1).subset
    simp only [candidate, withCounter, counted, mem_append, mem_cons] at hc
    rcases hc with hc | hc | hc | rfl | hc
    · exact h c (hsplit ▸ mem_append_left _ (hstem hc))
    · have hopen : " (".toList.all (fun c => !isControl c) = true := by decide
      simpa using all_eq_true.mp hopen c hc
    · obtain ⟨d, hd, rfl⟩ := mem_map.mp hc
      have hlt : d < 10 := Nat.digits_lt_base (by decide) (mem_reverse.mp hd)
      interval_cases d <;> decide
    · decide
    · exact h c (hsplit ▸ mem_append_right _ hc)

/-- What is asked of a name: a cut falls well, and what is kept has none of the control characters
that cleaning leaves. -/
def Fortunate (raw : Name) : Prop :=
  CutsWell (cleanName raw) ∧ ∀ c ∈ sanitizeFilename raw, isControl c = false

/-- What is asked of a directory: the first of the candidates that is not there is no link that
dangles. -/
def Undangled (dir : Name → Entry) (raw : Name) : Prop :=
  ∀ n < 2 ^ 32, (∀ k < n, dir (candidate raw k) = .present) → dir (candidate raw n) ≠ .dangling

def sampleDir (name : Name) : Entry :=
  if name = "_CON.txt".toList then .present else if name =
    "other".toList then .dangling else .absent

end MeshTalk.File.SaveName
