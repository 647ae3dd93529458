import Kairix.MachineWord

/-!
# The search for a free area

`find_free_area` walks over the sorted areas of an address space with a candidate that
moves behind every area in its way.
-/

namespace Kairix.FreeAreas

def userEnd : ℕ := 0x40_0000_0000

inductive Arch where
  | riscv64
  | loongarch64

def Arch.mmapBase : Arch → ℕ
  | .riscv64 => 0x4000_0000
  | .loongarch64 => 0x2_0000_0000

/-- The page numbers of an area; its addresses are machine words. -/
structure Area where
  startVpn : ℕ
  endVpn : ℕ
  ordered : startVpn ≤ endVpn
  bounded : endVpn * pageSize < usizeLimit

structure UserAreas where
  areas : List Area
  sorted : areas.Pairwise fun first second => first.endVpn ≤ second.startVpn

def roundUp (addr : ℕ) : ℕ := (addr + (pageSize - 1)) / pageSize * pageSize

def pageAlignUp (addr : ℕ) : Option ℕ :=
  if addr + (pageSize - 1) < usizeLimit then some (roundUp addr) else none

def fit (current len : ℕ) : Option ℕ :=
  if current + len < usizeLimit ∧ current + len ≤ userEnd then some current else none

def scan (len : ℕ) : List Area → ℕ → Option ℕ
  | [], current => fit current len
  | area :: rest, current =>
    if area.endVpn * pageSize ≤ current then scan len rest current
    else if usizeLimit ≤ current + len then none
    else if current + len ≤ area.startVpn * pageSize then fit current len
    else
      (pageAlignUp (area.endVpn * pageSize)).bind fun next =>
        if userEnd ≤ next then none else scan len rest next

def findFreeArea (arch : Arch) (space : UserAreas) (start len : ℕ) : Option ℕ :=
  (pageAlignUp len).bind fun alignedLen =>
    (if start = 0 then some arch.mmapBase else pageAlignUp start).bind fun current =>
      scan alignedLen space.areas current

/-! ## Free ranges -/

/-- A range of the user address space which overlaps no area. -/
structure Free (areas : List Area) (len start : ℕ) : Prop where
  inside : start + len ≤ userEnd
  clear : ∀ area ∈ areas,
    start + len ≤ area.startVpn * pageSize ∨ area.endVpn * pageSize ≤ start

def effectiveStart (arch : Arch) (start : ℕ) : ℕ :=
  if start = 0 then arch.mmapBase else roundUp start

/-- The lowest free range from `first` on, or none when there is no free range. -/
structure Lowest (areas : List Area) (len first : ℕ) (found : Option ℕ) : Prop where
  returned : ∀ addr ∈ found, pageSize ∣ addr ∧ Free areas (roundUp len) addr ∧ first ≤ addr ∧
    ∀ other, first ≤ other → Free areas len other → addr ≤ other
  missing : found = none → ∀ other, first ≤ other → ¬ Free areas len other

theorem le_roundUp (addr : ℕ) : addr ≤ roundUp addr := by
  rw [roundUp, pageSize]
  omega

theorem dvd_roundUp (addr : ℕ) : pageSize ∣ roundUp addr := dvd_mul_left _ _

theorem pageAlignUp_of_dvd {addr : ℕ} (haddr : pageSize ∣ addr) (hbounded : addr < usizeLimit) :
    pageAlignUp addr = some addr := by
  obtain ⟨page, rfl⟩ := haddr
  simp only [pageSize, usizeLimit] at hbounded
  rw [pageAlignUp, roundUp, pageSize, usizeLimit, if_pos (by omega), Option.some_inj]
  omega

/-- The bounds of areas are page aligned, so an aligned candidate has room whenever a
range from it on has room. -/
theorem room_of_le {current other len bound : ℕ} (hcurrent : pageSize ∣ current)
    (hbound : pageSize ∣ bound) (hle : current ≤ other) (hroom : other + len ≤ bound) :
    current + roundUp len ≤ bound := by
  obtain ⟨page, rfl⟩ := hcurrent
  obtain ⟨last, rfl⟩ := hbound
  rw [roundUp]
  simp only [pageSize] at hle hroom ⊢
  omega

variable {areas : List Area} {area : Area} {len current first : ℕ}

theorem lowest_none (hfull : ∀ other, first ≤ other → ¬ Free areas len other) :
    Lowest areas len first none :=
  ⟨by simp, fun _ => hfull⟩

theorem Free.room {other : ℕ} (hfree : Free areas len other) (hcurrent : pageSize ∣ current)
    (hle : current ≤ other) : current + roundUp len ≤ userEnd :=
  room_of_le hcurrent (by decide) hle hfree.inside

theorem lowest_fit (hcurrent : pageSize ∣ current) (hclear : ∀ area ∈ areas,
      current + roundUp len ≤ area.startVpn * pageSize ∨ area.endVpn * pageSize ≤ current) :
    Lowest areas len current (fit current (roundUp len)) := by
  rw [fit]
  split_ifs with hfits
  · refine ⟨fun addr hmem => ?_, by simp⟩
    cases hmem
    exact ⟨hcurrent, ⟨hfits.2, hclear⟩, le_rfl, fun other hle _ => hle⟩
  · refine lowest_none fun other hle hfree => ?_
    have hroom := hfree.room hcurrent hle
    exact hfits ⟨hroom.trans_lt (by decide), hroom⟩

/-- An area in front of the candidate does not matter. -/
theorem Lowest.cons {found : Option ℕ} (hlowest : Lowest areas len current found)
    (hfirst : first ≤ current) (hbefore : area.endVpn * pageSize ≤ current)
    (hblocked : ∀ other, first ≤ other → Free (area :: areas) len other → current ≤ other) :
    Lowest (area :: areas) len first found := by
  have hrest {other : ℕ} (hfree : Free (area :: areas) len other) : Free areas len other :=
    ⟨hfree.inside, fun item hmem => hfree.clear item (List.mem_cons_of_mem area hmem)⟩
  refine ⟨fun addr haddr => ?_, fun hnone other hle hfree =>
    hlowest.missing hnone other (hblocked other hle hfree) (hrest hfree)⟩
  obtain ⟨haligned, hfree, hle, hleast⟩ := hlowest.returned addr haddr
  refine ⟨haligned, ⟨hfree.inside, fun item hmem => ?_⟩, hfirst.trans hle,
    fun other hother h => hleast other (hblocked other hother h) (hrest h)⟩
  rcases List.mem_cons.mp hmem with rfl | hmem
  · exact .inr (hbefore.trans hle)
  · exact hfree.clear item hmem

theorem lowest_scan (hlen : 0 < len)
    (hsorted : areas.Pairwise fun first second => first.endVpn ≤ second.startVpn)
    (hcurrent : pageSize ∣ current) :
    Lowest areas len current (scan (roundUp len) areas current) := by
  induction areas generalizing current with
  | nil => exact lowest_fit hcurrent (by simp)
  | cons area rest ih =>
    obtain ⟨hafter, hrest⟩ := List.pairwise_cons.mp hsorted
    rw [scan]
    split_ifs with hbehind hoverflow hroom
    · exact (ih hrest hcurrent).cons le_rfl hbehind fun _ hle _ => hle
    · refine lowest_none fun other hle hfree => ?_
      have hinside := hfree.room hcurrent hle
      exact absurd (hinside.trans_lt (by decide)) (not_lt.mpr hoverflow)
    · refine lowest_fit hcurrent fun item hmem => .inl ?_
      rcases List.mem_cons.mp hmem with rfl | hmem
      · exact hroom
      · exact hroom.trans (Nat.mul_le_mul_right _ (area.ordered.trans (hafter item hmem)))
    · have haligned : pageSize ∣ area.endVpn * pageSize := dvd_mul_left _ _
      have hblocked (other : ℕ) (hle : current ≤ other) (hfree : Free (area :: rest) len other) :
          area.endVpn * pageSize ≤ other := by
        refine (hfree.clear area List.mem_cons_self).resolve_left fun hbefore => hroom ?_
        exact room_of_le hcurrent (dvd_mul_left _ _) hle hbefore
      rw [pageAlignUp_of_dvd haligned area.bounded, Option.bind_some]
      split_ifs with hend
      · refine lowest_none fun other hle hfree => ?_
        have hpast := hend.trans (hblocked other hle hfree)
        have hinside := hfree.inside
        omega
      · exact (ih hrest haligned).cons (not_le.mp hbehind).le le_rfl hblocked

/-- Whatever is returned is the lowest free range from the effective start on, and nothing
is returned only if there is none. -/
theorem lowest_findFreeArea (arch : Arch) (space : UserAreas) (start : ℕ) {len : ℕ}
    (hlen : 0 < len) :
    Lowest space.areas len (effectiveStart arch start) (findFreeArea arch space start len) := by
  have hnone {addr : ℕ} (haddr : pageAlignUp addr = none) : userEnd < addr := by
    rw [pageAlignUp] at haddr
    split_ifs at haddr with hword
    simp only [usizeLimit, pageSize, userEnd] at hword ⊢
    omega
  have hsome {addr aligned : ℕ} (haddr : pageAlignUp addr = some aligned) :
      aligned = roundUp addr := by
    rw [pageAlignUp] at haddr
    split_ifs at haddr
    exact (Option.some.inj haddr).symm
  rw [findFreeArea]
  cases halign : pageAlignUp len with
  | none =>
    refine lowest_none fun other _ hfree => ?_
    have hlarge := hnone halign
    have hinside := hfree.inside
    omega
  | some alignedLen =>
    obtain rfl := hsome halign
    rw [Option.bind_some, effectiveStart]
    split_ifs with hstart
    · refine lowest_scan hlen space.sorted ?_
      cases arch <;> decide
    · cases hword : pageAlignUp start with
      | none =>
        refine lowest_none fun other hle hfree => ?_
        have hlarge := hnone hword
        have hinside := hfree.inside
        have hround := le_roundUp start
        omega
      | some current =>
        obtain rfl := hsome hword
        exact lowest_scan hlen space.sorted (dvd_roundUp start)

/-- One page is wanted, and the first free one lies between two areas. -/
theorem lowest_findFreeArea_between : ∃ space : UserAreas, space.areas.length = 2 ∧
      findFreeArea .riscv64 space 0 1 = some 0x4000_1000 ∧
        Lowest space.areas 1 (effectiveStart .riscv64 0) (some 0x4000_1000) := by
  let space : UserAreas := ⟨[⟨0x4_0000, 0x4_0001, by decide, by decide⟩,
    ⟨0x4_0002, 0x4_0003, by decide, by decide⟩], by simp⟩
  have hfound : findFreeArea .riscv64 space 0 1 = some 0x4000_1000 := by decide
  refine ⟨space, rfl, hfound, ?_⟩
  rw [← hfound]
  exact lowest_findFreeArea .riscv64 space 0 Nat.one_pos

/-- A start near the end of the user address space hides the free space below it. -/
theorem findFreeArea_none_of_high_start : ∃ (space : UserAreas) (start other : ℕ),
      findFreeArea .riscv64 space start (2 * pageSize) = none ∧
        Arch.riscv64.mmapBase ≤ other ∧ Free space.areas (2 * pageSize) other :=
  ⟨⟨[], .nil⟩, userEnd - pageSize, Arch.riscv64.mmapBase, by decide, le_rfl, by decide, by simp⟩

end Kairix.FreeAreas
