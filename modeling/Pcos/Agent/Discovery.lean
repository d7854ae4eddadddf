import Pcos.Backend.Passwords
import Pcos.Foundations.Dict
import Pcos.Foundations.Runs
import Pcos.Foundations.Utf8

/-!
# Agent/Discovery — which agents see each other (`agent/src/discovery.rs`)

    PCOS-DISCOVER-V1|id|hostname|port ──broadcast──▸ every socket on the LAN

Datagrams get lost, overtake each other and arrive twice, and everything else that is sent to the port
arrives too.  Whatever the order, **an agent lists the others whose announcement it has received within
the last two minutes, with what they announced, and no one else under their ids** (`peers_iff`).
-/

namespace Pcos.Discovery

open Foundations Passwords

/-- A discovered peer; its time in nanoseconds. -/
structure Peer (Ip : Type) where
  id : String
  hostname : String
  ip : Ip
  port : ℕ
  lastSeen : ℕ
  deriving DecidableEq

structure LanDiscovery (Ip : Type) where
  peers : Dict String (Peer Ip)
  servicePort : ℕ
  deviceId : String

def peerTimeout : ℕ := 120 * 10 ^ 9

def magic : String := "PCOS-DISCOVER-V1"

/-- The buffer of the listener. -/
def bufferSize : ℕ := 512

/-- `parse::<u16>` -/
def parseU16 (s : List Char) : Option ℕ :=
  let digits := stripPlus s
  if digits ≠ [] ∧ digits.all Char.isDigit ∧ Nat.ofDigitChars 10 digits 0 < 2 ^ 16 then
    some (Nat.ofDigitChars 10 digits 0)
  else none

namespace LanDiscovery

variable {Ip : Type} (d : LanDiscovery Ip)

def new (deviceId : String) (servicePort : ℕ) : LanDiscovery Ip := ⟨.empty, servicePort, deviceId⟩

/-- Get currently discovered peers. -/
def peersAt (now : ℕ) : List (Peer Ip) :=
  (d.peers.entries.map Prod.snd).filter fun p => now - p.lastSeen < peerTimeout

/-- What the broadcaster sends. -/
def message (hostname : String) : Bytes :=
  encodeUtf8 (magic ++ "|" ++ d.deviceId ++ "|" ++ hostname ++ "|" ++ toString d.servicePort)

end LanDiscovery

structure Datagram (Ip : Type) where
  ip : Ip
  bytes : Bytes
  now : ℕ

/-- What a datagram announces: an id, a hostname and a port. -/
def announced (bytes : Bytes) : Option (String × String × ℕ) :=
  match (fromUtf8Lossy (bytes.take bufferSize)).toList.splitOn '|' with
  | [prelude, id, hostname, port] =>
    if String.ofList prelude = magic then
      some (.ofList id, .ofList hostname, (parseU16 port).getD 8080)
    else none
  | _ => none

/-- The peer that a datagram makes known, under its id. -/
def found {Ip : Type} (deviceId : String) (e : Datagram Ip) : Option (String × Peer Ip) :=
  (announced e.bytes).bind fun (id, hostname, port) =>
    if id = deviceId then none else some (id, ⟨id, hostname, e.ip, port, e.now⟩)

/-- The body of the listener's loop. -/
def receive {Ip : Type} (d : LanDiscovery Ip) (e : Datagram Ip) : LanDiscovery Ip :=
  match found d.deviceId e with
  | none => d
  | some (id, peer) => { d with peers := d.peers.set id peer }

/-! ## What an announcement is read as -/

/-- A host whose announcement can be read back. -/
structure Plain {Ip : Type} (d : LanDiscovery Ip) (hostname : String) : Prop where
  id_plain : '|' ∉ d.deviceId.toList
  hostname_plain : '|' ∉ hostname.toList
  port_lt : d.servicePort < 2 ^ 16
  fits : (d.message hostname).length ≤ bufferSize

section Listener

variable {Ip : Type} {d : LanDiscovery Ip} {hostname : String}

theorem parseU16_toString {n : ℕ} (hn : n < 2 ^ 16) : parseU16 (toString n).toList = some n := by
  have htext : (toString n).toList = Nat.toDigits 10 n := by
    rw [Nat.toString_eq_ofList_toDigits, String.toList_ofList]
  have hdigit : ∀ c ∈ Nat.toDigits 10 n, c.isDigit = true := fun c hc =>
    Nat.isDigit_of_mem_toDigits (by decide) (by decide) hc
  have hplus : stripPlus (Nat.toDigits 10 n) = Nat.toDigits 10 n := by
    unfold stripPlus
    split
    · rename_i rest heq
      exact absurd (hdigit '+' (heq ▸ List.mem_cons_self)) (by decide)
    · rfl
  rw [htext, parseU16, hplus, Nat.ofDigitChars_ten_toDigits]
  exact if_pos ⟨Nat.toDigits_ne_nil, List.all_eq_true.mpr hdigit, hn⟩

/-- **An announcement is read as what was announced.** -/
theorem announced_message (h : Plain d hostname) :
    announced (d.message hostname) = some (d.deviceId, hostname, d.servicePort) := by
  have htext : (magic ++ "|" ++ d.deviceId ++ "|" ++ hostname ++ "|" ++ toString d.servicePort).toList =
      ['|'].intercalate [magic.toList, d.deviceId.toList, hostname.toList,
        (toString d.servicePort).toList] := by
    simp [List.intercalate]
  have hport : '|' ∉ (toString d.servicePort).toList := by
    rw [Nat.toString_eq_ofList_toDigits, String.toList_ofList]
    intro hmem
    exact absurd (Nat.isDigit_of_mem_toDigits (by decide) (by decide) hmem) (by decide)
  have hpieces : ∀ l ∈ [magic.toList, d.deviceId.toList, hostname.toList,
      (toString d.servicePort).toList], ∀ c ∈ l, (c == '|') = false := by
    have hmagic : '|' ∉ magic.toList := by decide
    intro l hl c hc
    rw [beq_eq_false_iff_ne]
    rintro rfl
    simp only [List.mem_cons, List.not_mem_nil, or_false] at hl
    rcases hl with rfl | rfl | rfl | rfl
    · exact hmagic hc
    · exact h.id_plain hc
    · exact h.hostname_plain hc
    · exact hport hc
  have hsplit : (['|'].intercalate [magic.toList, d.deviceId.toList, hostname.toList,
      (toString d.servicePort).toList]).splitOn '|' = [magic.toList, d.deviceId.toList,
        hostname.toList, (toString d.servicePort).toList] :=
    splitOnP_intercalate (p := (· == '|')) rfl (List.cons_ne_nil _ _) hpieces
  unfold announced
  rw [List.take_of_length_le h.fits, LanDiscovery.message, fromUtf8Lossy_encodeUtf8, htext, hsplit]
  simp only [String.ofList_toList, if_pos, parseU16_toString h.port_lt, Option.getD_some]

/-! ## What a listener knows -/

theorem deviceId_receive (e : Datagram Ip) : (receive d e).deviceId = d.deviceId := by
  unfold receive
  split <;> rfl

theorem peers_receive (e : Datagram Ip) :
    (receive d e).peers = (found d.deviceId e).toList.foldl (fun m w => m.set w.1 w.2) d.peers := by
  unfold receive
  split
  · rename_i heq
    rw [heq]
    rfl
  · rename_i heq
    rw [heq]
    rfl

/-- A listener has set the peers that it found, one after the other. -/
theorem peers_run (d : LanDiscovery Ip) (es : List (Datagram Ip)) : (run receive d es).peers =
    (es.filterMap (found d.deviceId)).foldl (fun m w => m.set w.1 w.2) d.peers := by
  induction es generalizing d with
  | nil => rfl
  | cons e es ih =>
    change (run receive (receive d e) es).peers = _
    rw [ih, deviceId_receive, peers_receive, List.filterMap_cons]
    cases found d.deviceId e <;> rfl

theorem id_of_found {deviceId : String} {e : Datagram Ip} {w : String × Peer Ip}
    (h : found deviceId e = some w) : w.2.id = w.1 := by
  obtain ⟨⟨id, hostname, port⟩, -, hw⟩ := Option.bind_eq_some_iff.mp h
  dsimp only at hw
  split at hw
  · cases hw
  · obtain rfl := Option.some.inj hw
    rfl

/-- **A listener lists a peer as it was found last**, while that is not too long ago. -/
theorem mem_peersAt_run {deviceId : String} {port now : ℕ} {es : List (Datagram Ip)} {p : Peer Ip} :
    p ∈ (run receive (.new deviceId port) es).peersAt now ↔
      ((es.filterMap (found deviceId)).filter fun w => w.1 = p.id).getLast? = some (p.id, p) ∧
        now - p.lastSeen < peerTimeout := by
  have hget : ∀ k, (run receive (.new deviceId port) es).peers.get k =
      ((es.filterMap (found deviceId)).filter fun w => w.1 = k).getLast?.map Prod.snd := by
    intro k
    rw [peers_run, Dict.get_foldl_set, LanDiscovery.new, Dict.get_empty, Option.or_none]
  rw [LanDiscovery.peersAt, List.mem_filter, decide_eq_true_eq]
  refine and_congr_left fun _ => ?_
  rw [List.mem_map]
  constructor
  · rintro ⟨⟨k, p⟩, hmem, rfl⟩
    have hk := Dict.mem_entries.mp hmem
    rw [hget] at hk
    obtain ⟨w, hw, rfl⟩ := Option.map_eq_some_iff.mp hk
    obtain ⟨hfound, hkey⟩ := List.mem_filter.mp (List.mem_of_getLast? hw)
    obtain ⟨e, -, he⟩ := List.mem_filterMap.mp hfound
    obtain rfl := of_decide_eq_true hkey
    rw [id_of_found he]
    exact hw
  · intro h
    refine ⟨(p.id, p), Dict.mem_entries.mpr ?_, rfl⟩
    rw [hget, h]
    rfl

end Listener

/-! ## A network -/

structure Host (Ip : Type) where
  deviceId : String
  hostname : String
  ip : Ip
  port : ℕ

namespace Host

variable {Ip : Type} (h : Host Ip)

def discovery : LanDiscovery Ip := .new h.deviceId h.port

def announcement : Bytes := h.discovery.message h.hostname

/-- The peer that it is for others. -/
def peer (lastSeen : ℕ) : Peer Ip := ⟨h.deviceId, h.hostname, h.ip, h.port, lastSeen⟩

end Host

/-- A datagram that the socket of a host receives. -/
structure Delivery (ι Ip : Type) extends Datagram Ip where
  dst : ι

section Network

variable {ι Ip : Type} [DecidableEq ι] (hosts : ι → Host Ip)

def deliver (s : ι → LanDiscovery Ip) (e : Delivery ι Ip) : ι → LanDiscovery Ip :=
  Function.update s e.dst (receive (s e.dst) e.toDatagram)

/-- No host is announced but by itself. -/
def Honest (es : List (Delivery ι Ip)) : Prop :=
  ∀ e ∈ es, ∀ a, announced e.bytes = some a → ∀ j, (hosts j).deviceId = a.1 →
    e.ip = (hosts j).ip ∧ e.bytes = (hosts j).announcement

/-- When a host has last received the announcement of another. -/
def lastHeard (es : List (Delivery ι Ip)) (i j : ι) : Option ℕ :=
  ((es.filter fun e => e.dst = i ∧ e.bytes = (hosts j).announcement).getLast?).map (·.now)

theorem run_deliver (s : ι → LanDiscovery Ip) (es : List (Delivery ι Ip)) (i : ι) :
    run deliver s es i = run receive (s i) ((es.filter fun e => e.dst = i).map (·.toDatagram)) := by
  induction es generalizing s with
  | nil => rfl
  | cons e es ih =>
    change run deliver (deliver s e) es i = _
    rw [ih, deliver]
    by_cases hi : e.dst = i
    · rw [List.filter_cons_of_pos (by simpa using hi), List.map_cons, hi, Function.update_self]
      rfl
    · rw [List.filter_cons_of_neg (by simpa using hi), Function.update_of_ne fun h => hi h.symm]

variable {hosts} {es : List (Delivery ι Ip)}

omit [DecidableEq ι] in
/-- A datagram for another host makes it known if it is its announcement. -/
theorem filter_found_of_ne (hids : Function.Injective fun j => (hosts j).deviceId)
    (hplain : ∀ j, Plain (hosts j).discovery (hosts j).hostname) (hhonest : Honest hosts es) {i j : ι}
    (hij : i ≠ j) {e : Delivery ι Ip} (he : e ∈ es) :
    (found (hosts i).deviceId e.toDatagram).filter (fun w => w.1 = (hosts j).deviceId) =
      if e.bytes = (hosts j).announcement then some ((hosts j).deviceId, (hosts j).peer e.now)
      else none := by
  split
  · rename_i hbytes
    have hread : announced e.bytes = some ((hosts j).deviceId, (hosts j).hostname, (hosts j).port) :=
      (congrArg announced hbytes).trans (announced_message (hplain j))
    have hip := (hhonest e he _ hread j rfl).1
    have hne : (hosts j).deviceId ≠ (hosts i).deviceId := fun h => hij (hids h).symm
    rw [found, hread, Option.bind_some]
    simp only [if_neg hne, hip]
    exact if_pos (decide_eq_true rfl)
  · rename_i hbytes
    rw [Option.filter_eq_none_iff]
    intro w hw hkey
    obtain ⟨a, hread, hfound⟩ := Option.bind_eq_some_iff.mp hw
    refine hbytes (hhonest e he a hread j ?_).2
    dsimp only at hfound
    split at hfound
    · cases hfound
    · obtain rfl := Option.some.inj hfound
      exact (of_decide_eq_true hkey).symm

/-- The announcements of another host that a host has received, as it has read them. -/
theorem filter_found (hids : Function.Injective fun j => (hosts j).deviceId)
    (hplain : ∀ j, Plain (hosts j).discovery (hosts j).hostname) (hhonest : Honest hosts es) {i j : ι}
    (hij : i ≠ j) :
    ((((es.filter fun e => e.dst = i).map (·.toDatagram)).filterMap
        (found (hosts i).deviceId)).filter fun w => w.1 = (hosts j).deviceId) =
      (es.filter fun e => e.dst = i ∧ e.bytes = (hosts j).announcement).map fun e =>
        ((hosts j).deviceId, (hosts j).peer e.now) := by
  have hone : ∀ e ∈ es, (found (hosts i).deviceId e.toDatagram).filter
      (fun w => w.1 = (hosts j).deviceId) = if e.bytes = (hosts j).announcement then
        some ((hosts j).deviceId, (hosts j).peer e.now) else none := fun e he =>
    filter_found_of_ne hids hplain hhonest hij he
  clear hhonest
  induction es with
  | nil => rfl
  | cons e es ih =>
    have hrest := ih fun e' he' => hone e' (List.mem_cons_of_mem _ he')
    by_cases hi : e.dst = i
    · have hfirst := hone e List.mem_cons_self
      rw [List.filter_cons_of_pos (by simpa using hi), List.map_cons, List.filterMap_cons]
      by_cases hbytes : e.bytes = (hosts j).announcement
      · rw [if_pos hbytes] at hfirst
        rw [(Option.filter_eq_some_iff.mp hfirst).1]
        dsimp only
        rw [List.filter_cons_of_pos (by simp), List.filter_cons_of_pos (by simp [hi, hbytes]), List.map_cons,
          hrest]
      · rw [if_neg hbytes] at hfirst
        rw [List.filter_cons_of_neg (by simp [hbytes]), ← hrest]
        cases hfound : found (hosts i).deviceId e.toDatagram with
        | none => rfl
        | some w =>
          rw [hfound] at hfirst
          exact List.filter_cons_of_neg fun hkey => by simp [Option.filter, hkey] at hfirst
    · rw [List.filter_cons_of_neg (by simpa using hi), List.filter_cons_of_neg (by simp [hi]), hrest]

/-- A host does not find itself. -/
theorem fst_ne_of_found {Ip : Type} {deviceId : String} {e : Datagram Ip} {w : String × Peer Ip}
    (h : found deviceId e = some w) : w.1 ≠ deviceId := by
  obtain ⟨a, -, hw⟩ := Option.bind_eq_some_iff.mp h
  dsimp only at hw
  split at hw
  · cases hw
  · rename_i hne
    obtain rfl := Option.some.inj hw
    exact hne

/-- **Each host lists the others whose announcement it has received in time, as they are**, and never
itself. -/
theorem peers_iff (hids : Function.Injective fun j => (hosts j).deviceId)
    (hplain : ∀ j, Plain (hosts j).discovery (hosts j).hostname) (hhonest : Honest hosts es) (i j : ι)
    (now : ℕ) (p : Peer Ip) :
    (p ∈ (run deliver (fun i => (hosts i).discovery) es i).peersAt now ∧ p.id = (hosts j).deviceId) ↔
      i ≠ j ∧ ∃ t, lastHeard hosts es i j = some t ∧ now - t < peerTimeout ∧ p = (hosts j).peer t := by
  rw [run_deliver, Host.discovery, mem_peersAt_run]
  constructor
  · rintro ⟨⟨hlast, hnow⟩, hid⟩
    rw [hid] at hlast
    have hij : i ≠ j := by
      rintro rfl
      obtain ⟨hfound, hkey⟩ := List.mem_filter.mp (List.mem_of_getLast? hlast)
      obtain ⟨e, -, he⟩ := List.mem_filterMap.mp hfound
      exact fst_ne_of_found he (of_decide_eq_true hkey)
    rw [filter_found hids hplain hhonest hij, List.getLast?_map] at hlast
    obtain ⟨e, he, hp⟩ := Option.map_eq_some_iff.mp hlast
    obtain rfl := (Prod.mk.inj hp).2
    refine ⟨hij, e.now, ?_, hnow, rfl⟩
    rw [lastHeard, he]
    rfl
  · rintro ⟨hij, t, hlast, hnow, rfl⟩
    obtain ⟨e, he, rfl⟩ := Option.map_eq_some_iff.mp hlast
    refine ⟨⟨?_, hnow⟩, rfl⟩
    have hid : ((hosts j).peer e.now).id = (hosts j).deviceId := rfl
    rw [hid, filter_found hids hplain hhonest hij, List.getLast?_map, he]
    rfl

end Network

namespace Sample

def hosts : Bool → Host String
  | false => ⟨"a", "laptop", "192.168.1.2", 8080⟩
  | true => ⟨"b", "tv", "192.168.1.3", 8081⟩

/-- The first is announced to the second. -/
def broadcast : List (Delivery Bool String) :=
  [⟨⟨"192.168.1.2", (hosts false).announcement, 5⟩, true⟩]

theorem injective_hosts : Function.Injective fun j => (hosts j).deviceId := by
  unfold Function.Injective
  decide

theorem plain_hosts : ∀ j, Plain (hosts j).discovery (hosts j).hostname := by
  have hfits : ∀ j, ((hosts j).discovery.message (hosts j).hostname).length ≤ bufferSize := by
    intro j
    rw [LanDiscovery.message, length_encodeUtf8]
    cases j <;> decide
  intro j
  cases j with
  | false => exact ⟨by decide, by decide, by decide, hfits false⟩
  | true => exact ⟨by decide, by decide, by decide, hfits true⟩

theorem honest_broadcast : Honest hosts broadcast := by
  intro e he a ha j hj
  obtain rfl := List.mem_singleton.mp he
  have hread : announced (hosts false).announcement = some ("a", "laptop", 8080) :=
    announced_message (plain_hosts false)
  obtain rfl := Option.some.inj (hread.symm.trans ha)
  obtain rfl : j = false := injective_hosts hj
  exact ⟨rfl, rfl⟩

end Sample

theorem peers_iff_broadcast :
    (Sample.hosts false).peer 5 ∈
        (run deliver (fun i => (Sample.hosts i).discovery) Sample.broadcast true).peersAt 9 ∧
      ((Sample.hosts false).peer 5).id = (Sample.hosts false).deviceId :=
  (peers_iff Sample.injective_hosts Sample.plain_hosts Sample.honest_broadcast true false 9 _).mpr
    ⟨by decide, 5, by simp [lastHeard, Sample.broadcast], by decide, rfl⟩

end Pcos.Discovery
