import Kairix.PanicOutcome

/-!
# IPv4 input

`ip_rcv` checks the header of a received packet, cuts the padding and the header off, and
hands the rest to the raw sockets and to the transport which the header names.
-/

namespace Kairix.Ipv4Input

open PanicOutcome

/-- The packet is `data[data_start..data_end]`. -/
structure Skb where
  data : List UInt8
  dataStart : ℕ
  dataEnd : ℕ
  ordered : dataStart ≤ dataEnd
  bounded : dataEnd ≤ data.length

namespace Skb

def len (skb : Skb) : ℕ := skb.dataEnd - skb.dataStart

def bytes (skb : Skb) : List UInt8 := (skb.data.take skb.dataEnd).drop skb.dataStart

def pull (skb : Skb) (size : ℕ) : Skb × Option (List UInt8) :=
  if hsize : size ≤ skb.len then
    ({ skb with
        dataStart := skb.dataStart + size
        ordered := Nat.add_le_of_le_sub' skb.ordered hsize }, some (skb.bytes.take size))
  else (skb, none)

def trim (skb : Skb) (size : ℕ) : Skb × Option (List UInt8) :=
  if hsize : size ≤ skb.len then
    ({ skb with
        dataEnd := skb.dataEnd - size
        ordered := Nat.le_sub_of_add_le (Nat.add_le_of_le_sub' skb.ordered hsize)
        bounded := (Nat.sub_le ..).trans skb.bounded }, some (skb.bytes.drop (skb.len - size)))
  else (skb, none)

theorem length_bytes (skb : Skb) : skb.bytes.length = skb.len := by
  simp [bytes, len, Nat.min_eq_left skb.bounded]

theorem bytes_pull {skb : Skb} {size : ℕ} (hsize : size ≤ skb.len) :
    (skb.pull size).1.bytes = skb.bytes.drop size := by
  rw [pull, dif_pos hsize, bytes, bytes, List.drop_drop]

theorem bytes_trim {skb : Skb} {size : ℕ} (hsize : size ≤ skb.len) :
    (skb.trim size).1.bytes = skb.bytes.take (skb.len - size) := by
  have hend : skb.dataStart + (skb.len - size) = skb.dataEnd - size := by
    have hordered := skb.ordered
    rw [len] at hsize ⊢
    omega
  rw [trim, dif_pos hsize, bytes, bytes, List.take_drop, List.take_take, hend,
    Nat.min_eq_left (Nat.sub_le ..)]

end Skb

inductive Fault where
  | outOfBounds
  | overflow

def word (high low : UInt8) : ℕ := high.toNat * 256 + low.toNat

/-! ## Headers -/

structure Ipv4Header where
  versionIhl : UInt8
  totalLen : ℕ
  flagsFrag : ℕ
  protocol : UInt8
  srcAddr : ℕ
  dstAddr : ℕ

namespace Ipv4Header

/-- The header is the twenty bytes behind the pointer to the packet. -/
def read (packet : List UInt8) : Except Fault Ipv4Header :=
  if 20 ≤ packet.length then
    .ok {
      versionIhl := packet.getD 0 0
      totalLen := wordAt 2
      flagsFrag := wordAt 6
      protocol := packet.getD 9 0
      srcAddr := wordAt 12 * 65536 + wordAt 14
      dstAddr := wordAt 16 * 65536 + wordAt 18 }
  else .error .outOfBounds
where
  wordAt (index : ℕ) : ℕ := word (packet.getD index 0) (packet.getD (index + 1) 0)

def version (header : Ipv4Header) : UInt8 := header.versionIhl >>> 4

def ihl (header : Ipv4Header) : ℕ := ((header.versionIhl &&& 0x0F) * 4).toNat

/-- The fragment offset is not zero, or more fragments follow. -/
def Fragment (header : Ipv4Header) : Prop :=
  header.flagsFrag % 0x2000 ≠ 0 ∨ header.flagsFrag / 0x2000 % 2 = 1

instance (header : Ipv4Header) : Decidable header.Fragment :=
  inferInstanceAs (Decidable (_ ∨ _))

end Ipv4Header

def addWord (sum word : ℕ) : ℕ :=
  if (sum + word) / 65536 ≠ 0 then (sum + word) % 65536 + (sum + word) / 65536 else sum + word

def checksumLoop : List UInt8 → ℕ → ℕ
  | high :: low :: rest, sum => checksumLoop rest (addWord sum (word high low))
  | [last], sum => addWord sum (word last 0)
  | [], sum => sum

def ipChecksum (data : List UInt8) : ℕ := 65535 - checksumLoop data 0 % 65536

def total : List UInt8 → ℕ
  | high :: low :: rest => word high low + total rest
  | [last] => word last 0
  | [] => 0

/-- In one's complement the words of a correct header add up to minus zero. -/
def Correct (header : List UInt8) : Prop := total header ≠ 0 ∧ 65535 ∣ total header

/-- The folded sum is the plain sum in one's complement. -/
structure Folds (sum total : ℕ) : Prop where
  small : sum ≤ 65535
  congruent : sum % 65535 = total % 65535
  zero : sum = 0 ↔ total = 0

theorem Folds.add {sum total : ℕ} (hfolds : Folds sum total) (high low : UInt8) :
    Folds (addWord sum (word high low)) (total + word high low) := by
  obtain ⟨hsmall, hcongruent, hzero⟩ := hfolds
  have hhigh := high.toNat_lt
  have hlow := low.toNat_lt
  have hword : word high low ≤ 65535 := by
    rw [word]
    omega
  rw [addWord]
  split <;> constructor <;> omega

theorem Folds.loop {sum before : ℕ} (hfolds : Folds sum before) (data : List UInt8) :
    Folds (checksumLoop data sum) (before + total data) := by
  fun_induction checksumLoop data sum generalizing before with
  | case1 high low rest sum ih =>
    rw [total, ← Nat.add_assoc]
    exact ih (hfolds.add high low)
  | case2 last sum => exact hfolds.add last 0
  | case3 sum => exact hfolds

theorem ipChecksum_eq_zero_iff (data : List UInt8) : ipChecksum data = 0 ↔ Correct data := by
  have hstart : Folds 0 0 := ⟨by omega, rfl, Iff.rfl⟩
  obtain ⟨hsmall, hcongruent, hzero⟩ := hstart.loop data
  rw [ipChecksum, Correct]
  omega

/-! ## Reception -/

abbrev Received := Skb × ℕ × ℕ

inductive Delivery where
  | raw (protocol : UInt8) (skb : Skb) (src : ℕ)
  | icmp (skb : Skb) (src dst : ℕ)
  | udp (skb : Skb) (src dst : ℕ)
  | tcp (skb : Skb) (src dst : ℕ)

def Delivery.skb : Delivery → Skb
  | .raw _ skb _ => skb
  | .icmp skb _ _ => skb
  | .udp skb _ _ => skb
  | .tcp skb _ _ => skb

structure Handlers where
  deliverRawPacket : UInt8 → Skb → ℕ → Bool
  icmpRcv : Skb → ℕ → ℕ → Except String Received
  udpRcv : Skb → ℕ → ℕ → Except String Received
  tcpRcv : Skb → ℕ → ℕ → Except String Received

def isLocalIp (localIps : List ℕ) (ip : ℕ) : Bool :=
  ip / 0x1000000 == 0x7F || localIps.contains ip

abbrev Reception := List Delivery × Except String Received

def refuse (message : String) : Except Fault Reception := .ok ([], .error message)

def dispatch (handlers : Handlers) (protocol : UInt8) (skb : Skb) (src dst : ℕ) : Reception :=
  if protocol = 1 then ([.raw 1 skb src, .icmp skb src dst], handlers.icmpRcv skb src dst)
  else if protocol = 17 then ([.raw 17 skb src, .udp skb src dst], handlers.udpRcv skb src dst)
  else if protocol = 6 then ([.raw 6 skb src, .tcp skb src dst], handlers.tcpRcv skb src dst)
  else if handlers.deliverRawPacket protocol skb src then
    ([.raw protocol skb src], .ok (skb, src, 0))
  else ([.raw protocol skb src], .error "Unsupported protocol")

def slice (bytes : List UInt8) (count : ℕ) : Except Fault (List UInt8) :=
  if count ≤ bytes.length then .ok (bytes.take count) else .error .outOfBounds

def subtract (first second : ℕ) : Except Fault ℕ :=
  if second ≤ first then .ok (first - second) else .error .overflow

def ipRcv (localIps : List ℕ) (handlers : Handlers) (skb : Skb) : Except Fault Reception :=
  if skb.len < 20 then refuse "IP packet too short"
  else do
    let header ← Ipv4Header.read skb.bytes
    if header.version ≠ 4 then refuse "Not IPv4"
    else if skb.len < header.ihl then refuse "IP header truncated"
    else do
      let head ← slice skb.bytes header.ihl
      if ipChecksum head ≠ 0 then refuse "Invalid IP checksum"
      else if header.totalLen < header.ihl ∨ skb.len < header.totalLen then
        refuse "Invalid IP total length"
      else if isLocalIp localIps header.dstAddr then do
        let padding ← subtract skb.len header.totalLen
        let trimmed := if padding ≠ 0 then (skb.trim padding).1 else skb
        .ok (dispatch handlers header.protocol (trimmed.pull header.ihl).1 header.srcAddr
          header.dstAddr)
      else refuse "Not for local"

theorem skb_of_mem_dispatch {handlers : Handlers} {protocol : UInt8} {skb : Skb} {src dst : ℕ}
    {delivery : Delivery} (hmem : delivery ∈ (dispatch handlers protocol skb src dst).1) :
    delivery.skb = skb := by
  unfold dispatch at hmem
  split_ifs at hmem <;> simp only [List.mem_cons, List.not_mem_nil, or_false] at hmem <;>
    rcases hmem with rfl | rfl <;> rfl

structure Checked (packet : List UInt8) (header : Ipv4Header) : Prop where
  read : Ipv4Header.read packet = .ok header
  version : header.version = 4
  fits : header.ihl ≤ packet.length
  correct : Correct (packet.take header.ihl)
  covers : header.ihl ≤ header.totalLen
  inside : header.totalLen ≤ packet.length

structure Valid (packet : List UInt8) (header : Ipv4Header) : Prop
    extends Checked packet header where
  long : 20 ≤ header.ihl
  whole : ¬header.Fragment

def payload (packet : List UInt8) (header : Ipv4Header) : List UInt8 :=
  (packet.take header.totalLen).drop header.ihl

theorem Checked.bytes_pull {skb : Skb} {header : Ipv4Header} (hchecked : Checked skb.bytes header)
    {padding : ℕ} (hpadding : padding = skb.len - header.totalLen) :
    ((if padding ≠ 0 then (skb.trim padding).1 else skb).pull header.ihl).1.bytes =
      payload skb.bytes header := by
  have hcovers := hchecked.covers
  have hinside := hchecked.inside
  rw [skb.length_bytes] at hinside
  have htrimmed : (if padding ≠ 0 then (skb.trim padding).1 else skb).bytes =
      skb.bytes.take header.totalLen := by
    split
    · rw [Skb.bytes_trim (by omega), hpadding, Nat.sub_sub_self hinside]
    · rw [List.take_of_length_le (by rw [skb.length_bytes]; omega)]
  rw [Skb.bytes_pull, htrimmed, payload]
  rw [← Skb.length_bytes, htrimmed, List.length_take, skb.length_bytes]
  omega

/-- Every packet handed on is the payload behind a good header. -/
def Passes (good : List UInt8 → Ipv4Header → Prop) (packet : List UInt8)
    (reception : Reception) : Prop :=
  ∀ delivery ∈ reception.1, ∃ header, good packet header ∧
    delivery.skb.bytes = payload packet header

/-- What the code itself tests before it hands a packet on. -/
def Accepted (localIps : List ℕ) (packet : List UInt8) (header : Ipv4Header) : Prop :=
  Checked packet header ∧ isLocalIp localIps header.dstAddr = true

theorem ipRcv_accepted (localIps : List ℕ) (handlers : Handlers) (skb : Skb) :
    Outcome (ipRcv localIps handlers skb) True (Passes (Accepted localIps) skb.bytes) := by
  have hlen := skb.length_bytes
  have hrefuse (message : String) :
      Outcome (refuse message) True (Passes (Accepted localIps) skb.bytes) := by
    simp [refuse, Outcome, Passes]
  unfold ipRcv
  split
  · exact hrefuse _
  apply Outcome.bind fun header => Ipv4Header.read skb.bytes = .ok header
  · rw [Ipv4Header.read, if_pos (by omega)]
    rfl
  intro header hread
  split
  · exact hrefuse _
  next hversion =>
  split
  · exact hrefuse _
  apply Outcome.bind fun head => head = skb.bytes.take header.ihl
  · rw [slice, if_pos (by omega)]
    rfl
  rintro head rfl
  split
  · exact hrefuse _
  next hsum =>
  split
  · exact hrefuse _
  split
  · next hlocal =>
    apply Outcome.bind fun padding => padding = skb.len - header.totalLen
    · rw [subtract, if_pos (by omega)]
      rfl
    intro padding hpadding delivery hmem
    have hchecked : Checked skb.bytes header :=
      ⟨hread, not_not.mp hversion, by omega, (ipChecksum_eq_zero_iff _).mp (not_not.mp hsum),
        by omega, by omega⟩
    rw [skb_of_mem_dispatch hmem]
    exact ⟨header, ⟨hchecked, hlocal⟩, hchecked.bytes_pull hpadding⟩
  · exact hrefuse _

/-- The header has its twenty bytes, and the packet is not a fragment. -/
def Ordinary (packet : List UInt8) : Prop :=
  match Ipv4Header.read packet with
  | .ok header => 20 ≤ header.ihl ∧ ¬header.Fragment
  | .error _ => True

instance (packet : List UInt8) : Decidable (Ordinary packet) := by
  unfold Ordinary
  split <;> infer_instance

theorem ordinary_iff {packet : List UInt8} {header : Ipv4Header}
    (hread : Ipv4Header.read packet = .ok header) :
    Ordinary packet ↔ 20 ≤ header.ihl ∧ ¬header.Fragment := by
  rw [Ordinary, hread]

variable {localIps : List ℕ} {handlers : Handlers} {skb : Skb}

theorem dispatch_ne_nil {protocol : UInt8} {src dst : ℕ} :
    (dispatch handlers protocol skb src dst).1 ≠ [] := by
  unfold dispatch
  split_ifs <;> simp

/-- An accepted packet is handed to at least one receiver. -/
theorem Accepted.exists_delivery {header : Ipv4Header} {reception : Reception}
    (haccepted : Accepted localIps skb.bytes header)
    (hrun : ipRcv localIps handlers skb = .ok reception) : ∃ delivery, delivery ∈ reception.1 := by
  obtain ⟨hchecked, hlocal⟩ := haccepted
  have hread := hchecked.read
  have hlen : 20 ≤ skb.len := by
    rw [Ipv4Header.read, skb.length_bytes] at hread
    split_ifs at hread with hlong
    exact hlong
  have hfits := hchecked.fits
  have hcovers := hchecked.covers
  have hinside := hchecked.inside
  have hsum := (ipChecksum_eq_zero_iff _).mpr hchecked.correct
  rw [skb.length_bytes] at hfits hinside
  rw [ipRcv, if_neg (by omega), hread] at hrun
  simp only [bind, Except.bind, hchecked.version, slice, skb.length_bytes, hfits, hsum, hlocal,
    subtract, hinside, ne_eq, not_true, if_false, if_true, Nat.not_lt.mpr hfits,
    Nat.not_lt.mpr hcovers, Nat.not_lt.mpr hinside, or_self] at hrun
  cases hrun
  exact List.exists_mem_of_ne_nil _ dispatch_ne_nil

/-- The checks which the code lacks matter for exactly the packets it accepts. -/
theorem ipRcv_valid_iff (localIps : List ℕ) (handlers : Handlers) (skb : Skb) :
    (∃ reception, ipRcv localIps handlers skb = .ok reception ∧
      Passes Valid skb.bytes reception) ↔
        (∀ header, ¬Accepted localIps skb.bytes header) ∨ Ordinary skb.bytes := by
  constructor
  · rintro ⟨reception, hrun, hpasses⟩
    by_cases haccepted : ∃ header, Accepted localIps skb.bytes header
    · obtain ⟨header, haccepted⟩ := haccepted
      obtain ⟨delivery, hmem⟩ := haccepted.exists_delivery hrun
      obtain ⟨found, hvalid, -⟩ := hpasses delivery hmem
      exact .inr ((ordinary_iff hvalid.read).mpr ⟨hvalid.long, hvalid.whole⟩)
    · exact .inl (not_exists.mp haccepted)
  · intro hcheck
    obtain ⟨reception, hrun, hpasses⟩ := (ipRcv_accepted localIps handlers skb).total trivial
    refine ⟨reception, hrun, fun delivery hmem => ?_⟩
    obtain ⟨header, haccepted, hpayload⟩ := hpasses delivery hmem
    rcases hcheck with hrefused | hordinary
    · exact absurd haccepted (hrefused header)
    · obtain ⟨hlong, hwhole⟩ := (ordinary_iff haccepted.1.read).mp hordinary
      exact ⟨header, ⟨haccepted.1, hlong, hwhole⟩, hpayload⟩

/-- A datagram of four bytes from and to `127.0.0.1`, with two bytes of padding. -/
def datagram (fragment checksum : UInt8) : List UInt8 :=
  [0x45, 0, 0, 24, 0, 0, fragment, 0, 64, 17, checksum, 0xD3, 127, 0, 0, 1, 127, 0, 0, 1,
    1, 2, 3, 4, 0, 0]

def received (data : List UInt8) : Skb := ⟨data, 0, data.length, Nat.zero_le _, le_rfl⟩

def silent : Handlers where
  deliverRawPacket _ _ _ := false
  icmpRcv _ _ _ := .error "ICMP packet too short"
  udpRcv _ _ _ := .error "UDP packet too short"
  tcpRcv _ _ _ := .error "TCP packet too short"

def passed (data : List UInt8) : List (List UInt8) :=
  match ipRcv [] silent (received data) with
  | .ok reception => reception.1.map fun delivery => delivery.skb.bytes
  | .error _ => []

theorem ipRcv_valid_datagram : passed (datagram 0 0x7C) = [[1, 2, 3, 4], [1, 2, 3, 4]] ∧
    ∃ reception, ipRcv [] silent (received (datagram 0 0x7C)) = .ok reception ∧
      Passes Valid (received (datagram 0 0x7C)).bytes reception :=
  ⟨by decide +kernel, (ipRcv_valid_iff [] silent _).mpr (.inr (by decide +kernel))⟩

/-- A header of eight bytes and a first fragment are handed on. -/
theorem ipRcv_passes_invalid : ∃ small fragment : List UInt8, passed small ≠ [] ∧
    (∃ header ∈ (Ipv4Header.read small).toOption, header.ihl = 8) ∧
    passed fragment ≠ [] ∧
    ∃ header ∈ (Ipv4Header.read fragment).toOption, header.Fragment := by
  refine ⟨[0x42, 0, 0, 20, 0xBD, 0xEB, 0, 0, 64, 17, 0, 0, 127, 0, 0, 1, 127, 0, 0, 1],
    datagram 0x20 0x5C, ?_⟩
  decide +kernel

end Kairix.Ipv4Input
