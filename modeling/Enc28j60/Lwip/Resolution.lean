import Enc28j60.Lwip.Frames

namespace Enc28j60.Lwip

open RegisterMap StateLogic LowLayer Ethernetif

variable {T own own' : Multiset Ptr} {m : Memory} {ram : Heap} {x y : Ptr} {b b' : Pbuf} {s s' s'' : Stack} {i j : Fin 10}
  {tbl : Fin 10 → EtharpEntry} {e : EtharpEntry} {netif : Ip4Netif} {ip : Word32} {c : EtharpScan}
  {P : List Byte → Prop} {K L : Word32 → MacAddrT → Prop}

section Holdings

/-- The references that the packets waiting for an address are. -/
def queued (tbl : Fin 10 → EtharpEntry) : Multiset Ptr := ∑ i, ((tbl i).q : Multiset Ptr)

/-- The references that the fragments waiting for others are. -/
def fragments (l : List IpReassdata) : Multiset Ptr := ((l.flatMap fun r ↦ r.p.flatMap IpReassHelper.pbuf :) : List Ptr)

def held (s : Stack) : Multiset Ptr := queued s.arpTable + fragments s.reassdatagrams

theorem queued_eq (tbl : Fin 10 → EtharpEntry) (i : Fin 10) :
    queued tbl = (tbl i).q + ∑ j ∈ Finset.univ.erase i, ((tbl j).q : Multiset Ptr) :=
  (Finset.add_sum_erase _ _ (Finset.mem_univ i)).symm

theorem queued_update : queued (Function.update tbl i e) + (tbl i).q = queued tbl + e.q := by
  have hothers : ∑ j ∈ Finset.univ.erase i, ((Function.update tbl i e j).q : Multiset Ptr) =
      ∑ j ∈ Finset.univ.erase i, ((tbl j).q : Multiset Ptr) :=
    Finset.sum_congr rfl fun j hj ↦ by rw [Function.update_of_ne (Finset.ne_of_mem_erase hj)]
  rw [queued_eq _ i, queued_eq tbl i, hothers, Function.update_self, add_right_comm, add_comm (e.q : Multiset Ptr),
    add_right_comm]

theorem mem_queued : x ∈ queued tbl ↔ ∃ i, x ∈ (tbl i).q := by simp [queued]

end Holdings

section Invariant

/-- The entry that a packet for `a` waits for. -/
def nextHop (netif : Ip4Netif) (a : Word32) : Word32 :=
  if !ip4AddrNetEq a netif.ipAddr netif.netmask && !ip4AddrIslinklocal a then netif.gw else a

def half (d : List Byte) (i : ℕ) : Word := d.getD (i + 1) 0 ++ d.getD i 0

/-- Four bytes of a packet, as they are read from memory. -/
def word (d : List Byte) (i : ℕ) : Word32 := half d (i + 2) ++ half d i

/-- The destination address of a packet. -/
def destOf (d : List Byte) : Word32 := word d 16

def mcastaddr (a : Word32) : MacAddrT :=
  ⟨0x01, 0x00, 0x5e, (a >>> 8).setWidth 8 &&& 0x7f, (a >>> 16).setWidth 8, (a >>> 24).setWidth 8⟩

/-- The addresses that get no entry. -/
def Unfit (netif : Ip4Netif) (ip : Word32) : Prop :=
  (ip4AddrIsany ip || ip4AddrIsbroadcast ip netif || ip4AddrIsmulticast ip) = true

/-- A packet for `a` may go to the hardware address `dst`. -/
def Reaches (netif : Ip4Netif) (K : Word32 → MacAddrT → Prop) (a : Word32) (dst : MacAddrT) : Prop :=
  ip4AddrIsbroadcast a netif = true ∧ dst = ethbroadcast ∨ ip4AddrIsmulticast a = true ∧ dst = mcastaddr a ∨
    K (nextHop netif a) dst

/-- The frames that may go out, where `P` is what packets are like and `K` the hardware addresses that
have been announced. -/
inductive Proper (netif : Ip4Netif) (P : List Byte → Prop) (K : Word32 → MacAddrT → Prop) : List Byte → Prop
  | request {dst : MacAddrT} (a : Word32) : dst = ethbroadcast ∨ K a dst →
      Proper netif P K (ethFrame netif.hwaddr dst ethtypeArp (arpPacket netif.hwaddr netif.ipAddr ethzero a arpRequest))
  | reply {dst : MacAddrT} {a : Word32} : K a dst →
      Proper netif P K (ethFrame netif.hwaddr dst ethtypeArp (arpPacket netif.hwaddr netif.ipAddr dst a arpReply))
  | packet {dst : MacAddrT} {d : List Byte} : P d → Reaches netif K (destOf d) dst →
      Proper netif P K (ethFrame netif.hwaddr dst ethtypeIp d)

/-- The ages that an entry in use can have. -/
def EtharpEntry.Young (e : EtharpEntry) : Prop := e.ctime < arpMaxage ∧ (e.state = .pending → e.ctime < arpMaxpending)

/-- What the table looks like: packets wait for pending entries only, and no address has two entries. -/
structure Table (tbl : Fin 10 → EtharpEntry) : Prop where
  queue : ∀ i, (tbl i).q ≠ [] → (tbl i).state = .pending ∧ ∃ x, (tbl i).q = [x]
  unique : ∀ i j, (tbl i).state ≠ .empty → (tbl j).state ≠ .empty → (tbl i).ipaddr = (tbl j).ipaddr → i = j
  young : ∀ i, (tbl i).state ≠ .empty → (tbl i).Young

/-- No datagram is waiting for fragments, or one with a single fragment, in the one buffer of the pool. -/
def Waiting (s : Stack) : Prop :=
  s.reassdatagrams = [] ∧ s.ipReassPbufcount = 0 ∧ s.mempReassdata = 5 ∨
    ∃ r h, s.reassdatagrams = [r] ∧ r.p = [h] ∧ h.pbuf = [0] ∧ s.ipReassPbufcount = 1 ∧ s.mempReassdata = 4

/-- A packet that waits for the address `ip`. -/
structure Held (netif : Ip4Netif) (P : List Byte → Prop) (ip : Word32) (b : Pbuf) : Prop where
  room : 14 ≤ b.payload
  packet : P b.bytes
  hop : nextHop netif (destOf b.bytes) = ip

theorem Held.alike (h : Held netif P ip b) (halike : Alike b b') : Held netif P ip b' := by
  rw [halike]
  exact ⟨h.room, h.packet, h.hop⟩

/-- The stack between two operations, where the caller has the references `own`. The table goes by what
is known, `L`, and what goes out by what has been announced, `K`. -/
structure Inv (netif : Ip4Netif) (P : List Byte → Prop) (K L : Word32 → MacAddrT → Prop) (own : Multiset Ptr)
    (s : Stack) : Prop where
  trusted : ∀ a dst, L a dst → ¬Unfit netif a ∧ K a dst
  accounts : Accounts (own + held s) s.memory s.ram
  nodup : (held s).Nodup
  table : Table s.arpTable
  known : ∀ i, (s.arpTable i).state.resolved = true → L (s.arpTable i).ipaddr (s.arpTable i).ethaddr
  queue : ∀ i, ∀ x ∈ (s.arpTable i).q, Held netif P (s.arpTable i).ipaddr (s.memory.pbuf x)
  waiting : Waiting s
  proper : ∀ f ∈ frames s, Proper netif P K f

/-- Reassembly goes on as before, and so do the buffers of the caller. -/
def Spares (own : Multiset Ptr) (s s' : Stack) : Prop :=
  (∃ m ram tbl c sent n d, s' = { s with
    memory := m, ram, arpTable := tbl, etharpCachedEntry := c, sent, ipId := n, ipData := d }) ∧
    ∀ y ∈ own, Alike (s.memory.pbuf y) (s'.memory.pbuf y)

theorem Spares.refl (own : Multiset Ptr) (s : Stack) : Spares own s s :=
  ⟨⟨_, _, _, _, _, _, _, rfl⟩, fun _ _ ↦ Alike.refl _⟩

theorem Spares.trans (h : Spares own s s') (h' : Spares own s' s'') : Spares own s s'' := by
  obtain ⟨⟨m, ram, tbl, c, sent, n, d, rfl⟩, halike⟩ := h
  obtain ⟨⟨m', ram', tbl', c', sent', n', d', rfl⟩, halike'⟩ := h'
  exact ⟨⟨_, _, _, _, _, _, _, rfl⟩, fun y hy ↦ (halike y hy).trans (halike' y hy)⟩

theorem Spares.mono (h : Spares own s s') (hle : own' ≤ own) : Spares own' s s' :=
  ⟨h.1, fun y hy ↦ h.2 y (Multiset.mem_of_le hle hy)⟩

theorem Table.update (h : Table tbl) (hq : e.q ≠ [] → e.state = .pending ∧ ∃ x, e.q = [x])
    (hu : e.state ≠ .empty → ∀ j ≠ i, (tbl j).state ≠ .empty → (tbl j).ipaddr ≠ e.ipaddr)
    (hy : e.state ≠ .empty → e.Young) : Table (Function.update tbl i e) := by
  refine ⟨fun j hj ↦ ?_, fun j k hj hk hjk ↦ ?_, fun j hj ↦ ?_⟩
  · by_cases he : j = i
    · subst he
      rw [Function.update_self] at hj ⊢
      exact hq hj
    · rw [Function.update_of_ne he] at hj ⊢
      exact h.queue j hj
  · by_cases hji : j = i
    · subst hji
      by_cases hkj : k = j
      · exact hkj.symm
      · rw [Function.update_self, Function.update_of_ne hkj] at *
        exact absurd hjk.symm (hu hj k hkj hk)
    · rw [Function.update_of_ne hji] at hj hjk
      by_cases hki : k = i
      · subst hki
        rw [Function.update_self] at hk hjk
        exact absurd hjk (hu hk j hji hj)
      · rw [Function.update_of_ne hki] at hk hjk
        exact h.unique j k hj hk hjk
  · by_cases he : j = i
    · subst he
      rw [Function.update_self] at hj ⊢
      exact hy hj
    · rw [Function.update_of_ne he] at hj ⊢
      exact h.young j hj

theorem held_update (s : Stack) (i : Fin 10) (e : EtharpEntry) :
    held { s with arpTable := Function.update s.arpTable i e } + (s.arpTable i).q = held s + e.q := by
  rw [held, held, add_right_comm, queued_update, add_right_comm]

theorem nodup_update (h : (held s).Nodup) (hq : e.q = []) :
    (held { s with arpTable := Function.update s.arpTable i e }).Nodup := by
  have hupdate := held_update s i e
  rw [hq, Multiset.coe_nil, add_zero] at hupdate
  exact Multiset.nodup_of_le (Multiset.le_iff_exists_add.mpr ⟨_, hupdate.symm⟩) h

/-- An entry changes, and with it the references that are held. -/
theorem Inv.update (h : Inv netif P K L own s)
    (hnd : (held { s with arpTable := Function.update s.arpTable i e }).Nodup) (hown : own' + (e.q : Multiset Ptr) = own + (s.arpTable i).q)
    (hq : e.q ≠ [] → e.state = .pending ∧ ∃ x, e.q = [x])
    (hu : e.state ≠ .empty → ∀ j ≠ i, (s.arpTable j).state ≠ .empty → (s.arpTable j).ipaddr ≠ e.ipaddr)
    (hy : e.state ≠ .empty → e.Young) (hk : e.state.resolved = true → L e.ipaddr e.ethaddr)
    (hqueue : ∀ x ∈ e.q, Held netif P e.ipaddr (s.memory.pbuf x)) :
    Inv netif P K L own' { s with arpTable := Function.update s.arpTable i e } := by
  have hheld : own' + held { s with arpTable := Function.update s.arpTable i e } = own + held s := by
    have hupdate := held_update s i e
    refine add_right_cancel (b := (e.q + (s.arpTable i).q : Multiset Ptr)) ?_
    calc _ = own' + (e.q : Multiset Ptr) + (held { s with
            arpTable := Function.update s.arpTable i e } + (s.arpTable i).q) := by abel
      _ = own + (s.arpTable i).q + (held s + e.q) := by rw [hown, hupdate]
      _ = _ := by abel
  refine ⟨h.trusted, by rw [hheld]; exact h.accounts, hnd, h.table.update hq hu hy, fun j hj ↦ ?_, fun j y hy ↦ ?_, h.waiting, h.proper⟩
  · by_cases he : j = i
    · subst he
      simp only [Function.update_self] at hj ⊢
      exact hk hj
    · simp only [Function.update_of_ne he] at hj ⊢
      exact h.known j hj
  · by_cases he : j = i
    · subst he
      simp only [Function.update_self] at hy ⊢
      exact hqueue y hy
    · simp only [Function.update_of_ne he] at hy ⊢
      exact h.queue j y hy

/-- Buffers change that nobody's packets are in, and frames go out. -/
theorem Inv.output (h : Inv netif P K L own s) {sent : List (Memory × List Ptr)}
    (hacc : Accounts (own' + held s) m ram)
    (halike : ∀ i, ∀ y ∈ (s.arpTable i).q, Alike (s.memory.pbuf y) (m.pbuf y))
    (hproper : ∀ f ∈ frames { s with memory := m, ram, sent }, Proper netif P K f) :
    Inv netif P K L own' { s with memory := m, ram, sent } := by
  exact ⟨h.trusted, hacc, h.nodup, h.table, h.known, fun i y hy ↦ (h.queue i y hy).alike (halike i y hy), h.waiting,
    hproper⟩

theorem mem_held_of_queue (hy : y ∈ (s.arpTable i).q) : y ∈ held s :=
  Multiset.mem_add.mpr (.inl (mem_queued.mpr ⟨i, hy⟩))

end Invariant

section Messages

@[simp] theorem wp_entry {Q : EtharpEntry → Stack → Prop} : wp (entry i) Q s ↔ Q (s.arpTable i) s := Iff.rfl

@[simp] theorem wp_setEntry {Q : Unit → Stack → Prop} {f : EtharpEntry → EtharpEntry} : wp (setEntry i f) Q s ↔
    Q ⟨⟩ { s with arpTable := Function.update s.arpTable i (f (s.arpTable i)) } := Iff.rfl

/-- The frame of a request. -/
def requestFrame (netif : Ip4Netif) (dst : MacAddrT) (a : Word32) : List Byte :=
  ethFrame netif.hwaddr dst ethtypeArp (arpPacket netif.hwaddr netif.ipAddr ethzero a arpRequest)

theorem forall_mem_concat {α : Type} {F : α → Prop} {l : List α} {f : α} (hl : ∀ g ∈ l, F g) (hf : F f) :
    ∀ g ∈ l ++ [f], F g := by
  intro g hg
  rcases List.mem_append.mp hg with hg | hg
  · exact hl g hg
  · rwa [List.mem_singleton.mp hg]

/-- A message leaves everything as it is. -/
theorem etharpRaw_inv (h : Inv netif P K L own s) {ethdstAddr hwdstAddr : MacAddrT} {opcode : Word}
    (hproper : Proper netif P K (ethFrame netif.hwaddr ethdstAddr ethtypeArp
      (arpPacket netif.hwaddr netif.ipAddr hwdstAddr ip opcode))) :
    wp (etharpRaw netif netif.hwaddr ethdstAddr netif.hwaddr netif.ipAddr hwdstAddr ip opcode) (fun r s' ↦
      Inv netif P K L own s' ∧ Spares own s s' ∧ s'.arpTable = s.arpTable ∧
        (r = .mem ∧ frames s' = frames s ∧ Busy (own + held s) ∨ r = .ok ∧ frames s' = frames s ++ [ethFrame netif.hwaddr ethdstAddr ethtypeArp
          (arpPacket netif.hwaddr netif.ipAddr hwdstAddr ip opcode)])) s := by
  refine wp_mono (etharpRaw_spec h.accounts _ _ _ _ _ _ _) ?_
  rintro r s' ⟨m, ram, sent, rfl, hacc, halike, hframes⟩
  refine ⟨h.output hacc (fun i y hy ↦ ?_) ?_, ⟨⟨_, _, _, _, _, _, _, rfl⟩, fun y hy ↦ ?_⟩, rfl, hframes⟩
  · exact halike y (Multiset.mem_add.mpr (.inr (mem_held_of_queue hy)))
  · rcases hframes with ⟨-, hframes, -⟩ | ⟨-, hframes⟩
    · rw [hframes]
      exact h.proper
    · rw [hframes]
      exact forall_mem_concat h.proper hproper
  · exact halike y (Multiset.mem_add.mpr (.inl hy))

theorem etharpRequestDst_inv (h : Inv netif P K L own s) {dst : MacAddrT} (hdst : dst = ethbroadcast ∨ K ip dst) :
    wp (etharpRequestDst netif ip dst) (fun r s' ↦ Inv netif P K L own s' ∧ Spares own s s' ∧ s'.arpTable = s.arpTable ∧
      (r = .mem ∧ frames s' = frames s ∧ Busy (own + held s) ∨ r = .ok ∧ frames s' = frames s ++ [requestFrame netif dst ip])) s :=
  etharpRaw_inv h (.request ip hdst)

theorem etharpRequest_inv (h : Inv netif P K L own s) :
    wp (etharpRequest netif ip) (fun r s' ↦ Inv netif P K L own s' ∧ Spares own s s' ∧ s'.arpTable = s.arpTable ∧
      (r = .mem ∧ frames s' = frames s ∧ Busy (own + held s) ∨ r = .ok ∧ frames s' = frames s ++ [requestFrame netif ethbroadcast ip])) s :=
  etharpRequestDst_inv h (.inl rfl)

/-- A reference of the caller is given up. -/
theorem freeChain_inv (h : Inv netif P K L (x ::ₘ own) s) :
    wp (freeChain [x]) (fun _ s' ↦ Inv netif P K L own s' ∧ Spares own s s' ∧ s'.arpTable = s.arpTable ∧
      frames s' = frames s) s := by
  have hacc := h.accounts
  rw [Multiset.cons_add] at hacc
  refine wp_mono (freeChain_spec hacc) ?_
  rintro r s' ⟨m, ram, rfl, hacc, halike⟩
  refine ⟨h.output hacc (fun i y _ ↦ halike y) h.proper, ⟨⟨_, _, _, _, _, _, _, rfl⟩, fun y _ ↦ halike y⟩, rfl, rfl⟩

end Messages

section Entries

/-- An entry that is given up. -/
def EtharpEntry.freed (e : EtharpEntry) : EtharpEntry := { e with q := [], state := .empty }

/-- The entry may be out of order but for its packet. -/
theorem etharpFreeEntry_of (he : e.q = (s.arpTable i).q)
    (h : Inv netif P K L own { s with arpTable := Function.update s.arpTable i e }) :
    wp (etharpFreeEntry i) (fun _ s' ↦ Inv netif P K L own s' ∧ Spares own s s' ∧
      s'.arpTable = Function.update s.arpTable i (s.arpTable i).freed ∧ frames s' = frames s) s := by
  have hfreed {own' : Multiset Ptr} (hown : own' = own + (s.arpTable i).q) :
      Inv netif P K L own' { s with arpTable := Function.update s.arpTable i (s.arpTable i).freed } := by
    have hupdate := h.update (i := i) (e := (s.arpTable i).freed) (nodup_update h.nodup rfl)
      (by simp only [Function.update_self, he]; exact (add_zero own').trans hown) (fun hq ↦ absurd rfl hq)
      (fun he ↦ absurd rfl he) (fun he ↦ absurd rfl he) (fun hk ↦ Bool.noConfusion hk) (List.forall_mem_nil _)
    rwa [Function.update_idem] at hupdate
  unfold etharpFreeEntry
  simp only [wp_bind, wp_entry]
  refine wp_ite (fun hq ↦ ?_) fun hq ↦ ?_
  · obtain ⟨-, x, hx⟩ := h.table.queue i (by simp only [Function.update_self, he]; exact hq)
    simp only [Function.update_self, he] at hx
    have hown : x ::ₘ own = own + (s.arpTable i).q := by
      rw [hx, add_comm]
      rfl
    -- the packet is given up while the entry still names it
    have hwithout := hfreed hown
    rw [hx]
    simp only [wp_bind, wp_setEntry]
    have hacc : Accounts (x ::ₘ (own + held { s with
        arpTable := Function.update s.arpTable i (s.arpTable i).freed })) s.memory s.ram := by
      rw [← Multiset.cons_add]
      exact hwithout.accounts
    refine wp_mono (freeChain_spec hacc) ?_
    rintro r s' ⟨m, ram, rfl, hacc, halike⟩
    simp only [Function.update_self, Function.update_idem]
    refine ⟨hwithout.output hacc (fun j y _ ↦ halike y) h.proper, ⟨⟨_, _, _, _, _, _, _, rfl⟩, fun y _ ↦ halike y⟩,
      rfl, rfl⟩
  · have hnil : (s.arpTable i).q = [] := not_not.mp hq
    have hsame : (s.arpTable i).freed = { s.arpTable i with state := .empty } := by
      rw [EtharpEntry.freed, ← hnil]
    simp only [wp_setEntry]
    rw [← hsame]
    refine ⟨hfreed ?_, ⟨⟨_, _, _, _, _, _, _, rfl⟩, fun _ _ ↦ Alike.refl _⟩, rfl, rfl⟩
    rw [hnil]
    exact (add_zero own).symm

theorem etharpFreeEntry_inv (h : Inv netif P K L own s) (i : Fin 10) :
    wp (etharpFreeEntry i) (fun _ s' ↦ Inv netif P K L own s' ∧ Spares own s s' ∧
      s'.arpTable = Function.update s.arpTable i (s.arpTable i).freed ∧ frames s' = frames s) s := by
  refine etharpFreeEntry_of (e := s.arpTable i) rfl ?_
  rw [Function.update_eq_self]
  exact h

/-- What the candidates say of the entries gone through. -/
structure Scanned (tbl : Fin 10 → EtharpEntry) (l : List (Fin 10)) (c : EtharpScan) : Prop where
  empty : ∀ i, c.empty = some i → (tbl i).state = .empty
  full : c.empty = none → ∀ i ∈ l, (tbl i).state ≠ .empty
  recycled : (∃ i ∈ l, (tbl i).state ≠ .empty) → c.recycled ≠ none
  ages : (c.oldQueue = none → c.ageQueue = 0) ∧ (c.oldPending = none → c.agePending = 0) ∧
    (c.oldStable = none → c.ageStable = 0)

theorem recycled_ne_none : c.recycled ≠ none ↔ c.oldStable ≠ none ∨ c.oldPending ≠ none ∨ c.oldQueue ≠ none := by
  cases c with
  | mk oldPending oldStable empty oldQueue ageQueue agePending ageStable =>
    cases oldStable <;> cases oldPending <;> cases oldQueue <;> simp [EtharpScan.recycled]

theorem Scanned.visit {l : List (Fin 10)} (h : Scanned tbl l c) (i : Fin 10) : Scanned tbl (l ++ [i]) (c.visit i (tbl i)) := by
  obtain ⟨hempty, hfull, hrec, hq, hp, hs⟩ := h
  have hzero (a : Word) : (0 : Word) ≤ a := BitVec.le_def.mpr (Nat.zero_le _)
  rw [recycled_ne_none] at hrec
  unfold EtharpScan.visit
  constructor
  · split_ifs <;> grind
  · split_ifs <;> grind [EtharpState.resolved]
  · rw [recycled_ne_none]
    split_ifs <;> grind [EtharpState.resolved]
  · split_ifs <;> grind

/-- An entry for the address is found; where there is none, the candidates are right. -/
theorem etharpScan_spec (ip : Word32) {l : List (Fin 10)} (l' : List (Fin 10)) (h : Scanned tbl l c)
    (hl : ∀ i ∈ l, (tbl i).state ≠ .empty → (tbl i).ipaddr ≠ ip) :
    (∃ i, etharpScan tbl ip l' c = .inl i ∧ (tbl i).state ≠ .empty ∧ (tbl i).ipaddr = ip) ∨
      ∃ c', etharpScan tbl ip l' c = .inr c' ∧ Scanned tbl (l ++ l') c' ∧
        ∀ i ∈ l ++ l', (tbl i).state ≠ .empty → (tbl i).ipaddr ≠ ip := by
  induction l' generalizing l c with
  | nil =>
    rw [List.append_nil]
    exact .inr ⟨c, rfl, h, hl⟩
  | cons i l' ih =>
    unfold etharpScan
    by_cases hfound : (tbl i).state ≠ .empty ∧ (tbl i).ipaddr = ip
    · exact .inl ⟨i, if_pos hfound, hfound⟩
    · have happ : l ++ i :: l' = l ++ [i] ++ l' := List.append_cons l i l'
      rw [if_neg hfound, happ]
      exact ih (h.visit i) (forall_mem_concat hl fun he heq ↦ hfound ⟨he, heq⟩)

theorem scanned_nil (tbl : Fin 10 → EtharpEntry) : Scanned tbl [] ⟨none, none, none, none, 0, 0, 0⟩ where
  empty i hi := by cases hi
  full _ := List.forall_mem_nil _
  recycled := by
    rintro ⟨i, hi, -⟩
    cases hi
  ages := ⟨fun _ ↦ rfl, fun _ ↦ rfl, fun _ ↦ rfl⟩

/-- The entry that a new address gets. -/
def EtharpEntry.renewed (ip : Word32) (e : EtharpEntry) : EtharpEntry := { e.freed with ipaddr := ip, ctime := 0 }

/-- An entry that is free becomes that of a new address. -/
theorem Inv.renew (h : Inv netif P K L own s) (ip : Word32) (hi : (s.arpTable i).state = .empty) :
    Inv netif P K L own { s with arpTable := Function.update s.arpTable i ((s.arpTable i).renewed ip) } ∧
      { s.arpTable i with ipaddr := ip, ctime := 0 } = (s.arpTable i).renewed ip := by
  have hnil : (s.arpTable i).q = [] := by
    by_contra hq
    obtain ⟨hpending, -⟩ := h.table.queue i hq
    cases hi.symm.trans hpending
  refine ⟨h.update (nodup_update h.nodup rfl) ?_ (fun hq ↦ absurd rfl hq) (fun he ↦ absurd rfl he) (fun he ↦ absurd rfl he) (fun hk ↦ Bool.noConfusion hk)
    (List.forall_mem_nil _), ?_⟩
  · rw [hnil]
    rfl
  · rw [EtharpEntry.renewed, EtharpEntry.freed, ← hnil, ← hi]

/-- The result is the entry of the address, an old one or a new one. Only an address without one can be
refused, and only where the flags say so. -/
theorem etharpFindEntry_inv (h : Inv netif P K L own s) (ip : Word32) (flags : Byte) :
    wp (etharpFindEntry ip flags) (fun r s' ↦ Inv netif P K L own s' ∧ Spares own s s' ∧ frames s' = frames s ∧
      ((∃ e, r = .error e ∧ s' = s ∧ flags ≠ etharpFlagTryHard ∧
          ∀ j, (s.arpTable j).state ≠ .empty → (s.arpTable j).ipaddr ≠ ip) ∨
        ∃ i, r = .ok i ∧ ((s.arpTable i).state ≠ .empty ∧ (s.arpTable i).ipaddr = ip ∧ s' = s ∨
          (∀ j, (s.arpTable j).state ≠ .empty → (s.arpTable j).ipaddr ≠ ip) ∧
            s'.arpTable = Function.update s.arpTable i ((s.arpTable i).renewed ip)))) s := by
  unfold etharpFindEntry
  simp only [wp_bind, wp_get]
  rcases etharpScan_spec ip (List.finRange 10) (scanned_nil s.arpTable) (List.forall_mem_nil _) with
    ⟨i, heq, hfound, hip⟩ | ⟨c, heq, hscan, hnone⟩
  · simp only [heq]
    exact ⟨h, Spares.refl _ _, rfl, .inr ⟨i, rfl, .inl ⟨hfound, hip, rfl⟩⟩⟩
  · rw [List.nil_append] at hscan hnone
    have hnew (j : Fin 10) := hnone j (List.mem_finRange j)
    simp only [heq]
    refine wp_ite (fun hrefuse ↦ ?_) fun hrefuse ↦ ?_
    · refine ⟨h, Spares.refl _ _, rfl, .inl ⟨_, rfl, rfl, fun hflags ↦ ?_, hnew⟩⟩
      subst hflags
      rcases hrefuse with hrefuse | ⟨-, hrefuse⟩
      · exact hrefuse (by decide)
      · exact absurd hrefuse (by decide)
    · cases hempty : c.empty with
      | some i =>
        obtain ⟨hinv, hsame⟩ := h.renew ip (hscan.empty i hempty)
        simp only [wp_bind, wp_setEntry, hsame]
        exact ⟨hinv, ⟨⟨_, _, _, _, _, _, _, rfl⟩, fun _ _ ↦ Alike.refl _⟩, rfl, .inr ⟨i, rfl, .inr ⟨hnew, rfl⟩⟩⟩
      | none =>
        cases hrec : c.recycled with
        | none =>
          have hany := hscan.recycled ⟨0, List.mem_finRange 0, hscan.full hempty 0 (List.mem_finRange 0)⟩
          exact absurd hrec hany
        | some i =>
          simp only [wp_bind]
          refine wp_mono (etharpFreeEntry_inv h i) ?_
          rintro - s₁ ⟨hinv, hspares, htbl, hframes⟩
          have hi : (s₁.arpTable i).state = .empty := by
            rw [htbl, Function.update_self]
            rfl
          obtain ⟨hinv', hsame⟩ := hinv.renew ip hi
          simp only [wp_setEntry, hsame]
          refine ⟨hinv', hspares.trans ⟨⟨_, _, _, _, _, _, _, rfl⟩, fun _ _ ↦ Alike.refl _⟩, hframes,
            .inr ⟨i, rfl, .inr ⟨hnew, ?_⟩⟩⟩
          rw [htbl, Function.update_idem, Function.update_self]
          rfl

end Entries

section Output

theorem Inv.heldApart (h : Inv netif P K L own s) (hi : (s.arpTable i).q = [x]) (hq : e.q = []) :
    x ∉ held { s with arpTable := Function.update s.arpTable i e } := by
  have hupdate := held_update s i e
  have hnodup := h.nodup
  rw [hq, hi, Multiset.coe_nil, add_zero, Multiset.coe_singleton, add_comm, Multiset.singleton_add] at hupdate
  rw [← hupdate] at hnodup
  exact (Multiset.nodup_cons.mp hnodup).1

/-- A packet of the caller goes out. -/
theorem ethernetOutput_inv (h : Inv netif P K L (x ::ₘ own) s) (hown : x ∉ own) (hheld : x ∉ held s) {dst : MacAddrT}
    (hroom : 14 ≤ (s.memory.pbuf x).payload)
    (hproper : Proper netif P K (ethFrame netif.hwaddr dst ethtypeIp (s.memory.pbuf x).bytes)) :
    wp (ethernetOutput netif [x] netif.hwaddr dst ethtypeIp) (fun _ s' ↦ Inv netif P K L (x ::ₘ own) s' ∧ Spares own s s' ∧
      s'.arpTable = s.arpTable ∧
      frames s' = frames s ++ [ethFrame netif.hwaddr dst ethtypeIp (s.memory.pbuf x).bytes]) s := by
  have hx : x ∈ x ::ₘ own + held s := Multiset.mem_add.mpr (.inl (Multiset.mem_cons_self x own))
  refine wp_mono (ethernetOutput_spec h.accounts hx netif.hwaddr dst ethtypeIp) ?_
  rintro _ s' (⟨hlow, -⟩ | ⟨-, -, m, sent, rfl, hacc, hother, hframes⟩)
  · exact absurd hlow (Nat.not_lt_of_le hroom)
  · refine ⟨h.output hacc (fun i y hy ↦ ?_) ?_, ⟨⟨_, _, _, _, _, _, _, rfl⟩, fun y hy ↦ ?_⟩, rfl, hframes⟩
    · rw [hother y fun he ↦ hheld (he ▸ mem_held_of_queue hy)]
      exact Alike.refl _
    · rw [hframes]
      exact forall_mem_concat h.proper hproper
    · rw [hother y fun he ↦ hown (he ▸ hy)]
      exact Alike.refl _

/-- The entry once the address is known. -/
def EtharpEntry.stabilized (ethaddr : MacAddrT) (e : EtharpEntry) : EtharpEntry :=
  { e with q := [], state := .stable, ethaddr, ctime := 0 }

theorem held_subset (hq : e.q = []) (hy : y ∈ held { s with arpTable := Function.update s.arpTable i e }) : y ∈ held s := by
  have hupdate := held_update s i e
  rw [hq, Multiset.coe_nil, add_zero] at hupdate
  rw [← hupdate]
  exact Multiset.mem_add.mpr (.inl hy)

theorem Inv.stabilize (h : Inv netif P K L own s) {ethaddr : MacAddrT} (hown : own' = own + (s.arpTable i).q)
    (hu : ∀ j ≠ i, (s.arpTable j).state ≠ .empty → (s.arpTable j).ipaddr ≠ (s.arpTable i).ipaddr)
    (hk : L (s.arpTable i).ipaddr ethaddr) :
    Inv netif P K L own' { s with
      arpTable := Function.update s.arpTable i ((s.arpTable i).stabilized ethaddr) } := by
  refine h.update (nodup_update h.nodup rfl) ((add_zero own').trans hown) (fun hq ↦ absurd rfl hq) (fun _ ↦ hu)
    (fun _ ↦ ⟨(by decide : (0 : Word) < arpMaxage), fun hp ↦ EtharpState.noConfusion hp⟩) (fun _ ↦ hk) (List.forall_mem_nil _)

/-- What an announcement changes in the table: the address has the new hardware address, and the other
entries are as before, unless one is given up for it. -/
def Heeds (ip : Word32) (ethaddr : MacAddrT) (tbl tbl' : Fin 10 → EtharpEntry) : Prop :=
  ∀ j, (tbl' j).state ≠ .empty → (tbl' j).ipaddr = ip ∧ (tbl' j).state = .stable ∧ (tbl' j).ethaddr = ethaddr ∨
    (tbl' j).ipaddr ≠ ip ∧ tbl' j = tbl j

/-- The entry `i` is that of the address, and the only one. -/
structure Located (ip : Word32) (i : Fin 10) (s s' : Stack) : Prop where
  here : (s'.arpTable i).ipaddr = ip
  alone : ∀ j ≠ i, (s'.arpTable j).state ≠ .empty → (s'.arpTable j).ipaddr ≠ ip
  others : ∀ j ≠ i, s'.arpTable j = s.arpTable j
  subset : ∀ y ∈ held s', y ∈ held s
  fresh : (s'.arpTable i).state = .empty ∧ (s'.arpTable i).q = [] ∧ (s'.arpTable i).ctime = 0 ∧
    (∀ j, (s.arpTable j).state ≠ .empty → (s.arpTable j).ipaddr ≠ ip) ∨ s' = s ∧ (s.arpTable i).state ≠ .empty

/-- What `etharp_find_entry` tells its callers. -/
theorem etharpFindEntry_located (h : Inv netif P K L own s) (ip : Word32) (flags : Byte) :
    wp (etharpFindEntry ip flags) (fun r s' ↦ Inv netif P K L own s' ∧ Spares own s s' ∧ frames s' = frames s ∧
      ((∃ e, r = .error e ∧ s' = s ∧ flags ≠ etharpFlagTryHard ∧
          ∀ j, (s.arpTable j).state ≠ .empty → (s.arpTable j).ipaddr ≠ ip) ∨ ∃ i, r = .ok i ∧ Located ip i s s')) s := by
  refine wp_mono (etharpFindEntry_inv h ip flags) ?_
  rintro r s' ⟨hinv, hspares, hframes, herror | ⟨i, rfl, ⟨hfound, hip, rfl⟩ | ⟨hnew, htbl⟩⟩⟩
  · exact ⟨hinv, hspares, hframes, .inl herror⟩
  · refine ⟨hinv, hspares, hframes, .inr ⟨i, rfl, hip, fun j hj hstate hjp ↦ ?_, fun _ _ ↦ rfl, fun _ hy ↦ hy,
      .inr ⟨rfl, hfound⟩⟩⟩
    exact hj (h.table.unique j i hstate hfound (hjp.trans hip.symm))
  · have hother (j : Fin 10) (hj : j ≠ i) : s'.arpTable j = s.arpTable j := by
      rw [htbl, Function.update_of_ne hj]
    refine ⟨hinv, hspares, hframes, .inr ⟨i, rfl, ?_, fun j hj hstate ↦ ?_, hother, fun y hy ↦ ?_, .inl ⟨?_, ?_, ?_, hnew⟩⟩⟩
    · rw [htbl, Function.update_self]
      rfl
    · rw [hother j hj] at hstate ⊢
      exact hnew j hstate
    · obtain ⟨⟨m, ram, tbl, c, sent, n, d, rfl⟩, -⟩ := hspares
      have htbl : tbl = _ := htbl
      subst htbl
      exact held_subset (s := s) (i := i) (e := (s.arpTable i).renewed ip) rfl hy
    all_goals
      rw [htbl, Function.update_self]
      rfl

/-- The frames that are due once the address is known: the packet that waits for it, if there is one. -/
def Due (netif : Ip4Netif) (ip : Word32) (ethaddr : MacAddrT) (s : Stack) (l : List (List Byte)) : Prop :=
  (∃ i x, (s.arpTable i).ipaddr = ip ∧ (s.arpTable i).q = [x] ∧
      l = [ethFrame netif.hwaddr ethaddr ethtypeIp (s.memory.pbuf x).bytes]) ∨
    (∀ i, (s.arpTable i).ipaddr = ip → (s.arpTable i).q = []) ∧ l = []

theorem etharpUpdateArpEntry_inv (h : Inv netif P K L own s) (hapart : ∀ y ∈ own, y ∉ held s) {ethaddr : MacAddrT}
    (flags : Byte) (hk : ¬Unfit netif ip → L ip ethaddr) :
    wp (etharpUpdateArpEntry netif ip ethaddr flags) (fun _ s' ↦ Inv netif P K L own s' ∧ Spares own s s' ∧
      (∀ y ∈ held s', y ∈ held s) ∧ (Unfit netif ip → s' = s) ∧ (¬Unfit netif ip →
        Heeds ip ethaddr s.arpTable s'.arpTable ∧ ∃ l, Due netif ip ethaddr s l ∧ frames s' = frames s ++ l)) s := by
  unfold etharpUpdateArpEntry
  refine wp_ite (fun hunfit ↦ ?_) fun hfit ↦ ?_
  · exact ⟨h, Spares.refl _ _, fun _ hy ↦ hy, fun _ ↦ rfl, fun hno ↦ absurd hunfit hno⟩
  · have hL := hk hfit
    refine wp_seq (etharpFindEntry_located h ip flags) ?_
    rintro r s₁ ⟨hinv, hspares, hframes, ⟨e, rfl, rfl, -, hnone⟩ | ⟨i, rfl, hloc⟩⟩
    · refine ⟨h, Spares.refl _ _, fun _ hy ↦ hy, fun hunfit ↦ absurd hunfit hfit,
        fun _ ↦ ⟨?_, [], .inr ⟨?_, rfl⟩, (List.append_nil _).symm⟩⟩
      · exact fun j hj ↦ .inr ⟨hnone j hj, rfl⟩
      · intro i hi
        by_contra hq
        obtain ⟨hpending, -⟩ := h.table.queue i hq
        exact hnone i (fun he ↦ by cases he.symm.trans hpending) hi
    · have hown : ∀ y ∈ own, y ∉ held s₁ := fun y hy hin ↦ hapart y hy (hloc.subset y hin)
      have halone : ∀ j ≠ i, (s₁.arpTable j).state ≠ .empty → (s₁.arpTable j).ipaddr ≠ (s₁.arpTable i).ipaddr := by
        rw [hloc.here]
        exact hloc.alone
      have hLi : L (s₁.arpTable i).ipaddr ethaddr := hloc.here.symm ▸ hL
      have hheeds {tbl : Fin 10 → EtharpEntry} (htbl : tbl = Function.update s₁.arpTable i ((s₁.arpTable i).stabilized ethaddr)) :
          Heeds ip ethaddr s.arpTable tbl := by
        subst htbl
        intro j hj
        by_cases he : j = i
        · subst he
          rw [Function.update_self]
          exact .inl ⟨hloc.here, rfl, rfl⟩
        · rw [Function.update_of_ne he] at hj ⊢
          exact .inr ⟨hloc.alone j he hj, hloc.others j he⟩
      have hquiet (hq : (s₁.arpTable i).q = []) : ∀ j, (s.arpTable j).ipaddr = ip → (s.arpTable j).q = [] := by
        intro j hj
        by_contra hne
        obtain ⟨hpending, -⟩ := h.table.queue j hne
        have hstate : (s.arpTable j).state ≠ .empty := fun he ↦ by cases he.symm.trans hpending
        rcases hloc.fresh with ⟨-, -, -, hnew⟩ | ⟨rfl, -⟩
        · exact hnew j hstate hj
        · by_cases he : j = i
          · exact hne (he ▸ hq)
          · exact hloc.alone j he hstate hj
      simp only [wp_bind, wp_setEntry, wp_entry, Function.update_self]
      refine wp_ite (fun hq ↦ ?_) fun hq ↦ ?_
      · obtain ⟨-, x, hx⟩ := hinv.table.queue i hq
        have hold : s₁ = s := by
          rcases hloc.fresh with ⟨-, hnil, -⟩ | ⟨hs, -⟩
          · exact absurd hnil hq
          · exact hs
        subst hold
        have hxheld : x ∈ held s₁ := mem_held_of_queue (i := i) (hx ▸ List.mem_singleton.mpr rfl)
        have hxown : x ∉ own := fun hin ↦ hapart x hin hxheld
        have hwait := hinv.queue i x (hx ▸ List.mem_singleton.mpr rfl)
        have hstable : Inv netif P K L (x ::ₘ own) { s₁ with
            arpTable := Function.update s₁.arpTable i ((s₁.arpTable i).stabilized ethaddr) } := by
          refine hinv.stabilize ?_ halone hLi
          rw [hx, add_comm]
          rfl
        have hxfree := hinv.heldApart (e := (s₁.arpTable i).stabilized ethaddr) hx rfl
        simp only [wp_bind, wp_setEntry, Function.update_self, Function.update_idem]
        rw [hx]
        refine wp_mono (ethernetOutput_inv hstable hxown hxfree hwait.room (.packet hwait.packet ?_)) ?_
        · right
          right
          rw [hwait.hop, hloc.here]
          exact (h.trusted ip ethaddr hL).2
        · rintro - s₂ ⟨hinv₂, hspares₂, htbl₂, hframes₂⟩
          refine wp_mono (freeChain_inv hinv₂) ?_
          rintro - s₃ ⟨hinv₃, hspares₃, htbl₃, hframes₃⟩
          refine ⟨hinv₃, ?_, ?_, fun hunfit ↦ absurd hunfit hfit, fun _ ↦ ⟨hheeds (htbl₃.trans htbl₂),
            _, .inl ⟨i, x, hloc.here, hx, rfl⟩, hframes₃.trans hframes₂⟩⟩
          · refine Spares.trans ?_ (hspares₂.trans hspares₃)
            exact ⟨⟨_, _, _, _, _, _, _, rfl⟩, fun _ _ ↦ Alike.refl _⟩
          · intro y hy
            obtain ⟨⟨m, ram, tbl, c, sent, n, d, rfl⟩, -⟩ := hspares₂.trans hspares₃
            have htbl : tbl = _ := htbl₃.trans htbl₂
            subst htbl
            exact held_subset (s := s₁) (i := i) (e := (s₁.arpTable i).stabilized ethaddr) rfl hy
      · have hnil : (s₁.arpTable i).q = [] := not_not.mp hq
        have hsame : { s₁.arpTable i with state := .stable, ethaddr, ctime := 0 } = (s₁.arpTable i).stabilized ethaddr := by
          rw [EtharpEntry.stabilized, ← hnil]
        rw [hsame]
        refine ⟨hinv.stabilize ?_ halone hLi, ?_, fun y hy ↦ ?_, fun hunfit ↦ absurd hunfit hfit,
          fun _ ↦ ⟨hheeds rfl, [], .inr ⟨hquiet hnil, rfl⟩, hframes.trans (List.append_nil _).symm⟩⟩
        · rw [hnil]
          exact (add_zero own).symm
        · exact hspares.trans ⟨⟨_, _, _, _, _, _, _, rfl⟩, fun _ _ ↦ Alike.refl _⟩
        · exact hloc.subset y (held_subset (s := s₁) (i := i) (e := (s₁.arpTable i).stabilized ethaddr) rfl hy)

end Output

section Input

variable {l : Loc}

theorem byteAt_alike {m' : Memory} (h : Alike (m.pbuf l.buf) (m'.pbuf l.buf)) (i : ℕ) : byteAt m' l i = byteAt m l i := by
  unfold byteAt
  rw [h]

/-- The check of `etharp_input`. -/
def ArpFit (m : Memory) (l : Loc) : Prop :=
  word16 m l 0 = lwipHtons 1 ∧ byteAt m l 4 = 6 ∧ byteAt m l 5 = 4 ∧ word16 m l 2 = lwipHtons ethtypeIp

/-- A request for the hardware address of the interface. -/
def Asks (netif : Ip4Netif) (m : Memory) (l : Loc) : Prop :=
  word16 m l 6 = lwipHtons arpRequest ∧ netif.ipAddr ≠ 0 ∧ word32 m l 24 = netif.ipAddr ∧ word32 m l 14 ≠ netif.ipAddr

def replyFrame (netif : Ip4Netif) (dst : MacAddrT) (a : Word32) : List Byte :=
  ethFrame netif.hwaddr dst ethtypeArp (arpPacket netif.hwaddr netif.ipAddr dst a arpReply)

/-- The frames that go out for an ARP message: the packet that has waited for the address, and the reply. -/
def Answered (netif : Ip4Netif) (own : Multiset Ptr) (l : Loc) (s s' : Stack) : Prop :=
  ∃ fs gs, frames s' = frames s ++ fs ++ gs ∧
    (Unfit netif (word32 s.memory l 14) ∧ fs = [] ∨
      ¬Unfit netif (word32 s.memory l 14) ∧ Due netif (word32 s.memory l 14) (macAt s.memory l 8) s fs) ∧
    (¬Asks netif s.memory l ∧ gs = [] ∨ Asks netif s.memory l ∧
      (gs = [] ∧ Busy (own + held s) ∨ gs = [replyFrame netif (macAt s.memory l 8) (word32 s.memory l 14)]))

theorem Busy.mono {T' : Multiset Ptr} (h : Busy T) (hle : ∀ y ∈ T, y ∈ T') : Busy T' := by
  obtain ⟨y, hy, hhigh⟩ := h
  exact ⟨y, hle y hy, hhigh⟩

theorem asks_iff : (word16 m l 6 = lwipHtons arpRequest ∧
    (!ip4AddrIsany netif.ipAddr && word32 m l 24 == netif.ipAddr) = true ∧
    (!(!ip4AddrIsany netif.ipAddr && word32 m l 14 == netif.ipAddr)) = true) ↔ Asks netif m l := by
  unfold Asks ip4AddrIsany
  generalize word16 m l 6 = op
  generalize lwipHtons arpRequest = request
  generalize word32 m l 24 = dipaddr
  generalize word32 m l 14 = sipaddr
  grind

/-- What an ARP message leaves behind: the buffer is given up, and the table goes by the announcement. -/
structure Taught (netif : Ip4Netif) (P : List Byte → Prop) (K L : Word32 → MacAddrT → Prop) (own : Multiset Ptr)
    (l : Loc) (s s' : Stack) : Prop where
  inv : Inv netif P K L own s'
  spares : Spares own s s'
  subset : ∀ y ∈ held s', y ∈ held s
  unfit : ¬ArpFit s.memory l → s'.arpTable = s.arpTable ∧ frames s' = frames s
  answered : ArpFit s.memory l → Answered netif (l.buf ::ₘ own) l s s'
  ignores : Unfit netif (word32 s.memory l 14) → s'.arpTable = s.arpTable
  heeds : ArpFit s.memory l → ¬Unfit netif (word32 s.memory l 14) →
    Heeds (word32 s.memory l 14) (macAt s.memory l 8) s.arpTable s'.arpTable

theorem Spares.held (h : Spares own s s') (htbl : s'.arpTable = s.arpTable) : held s' = held s := by
  obtain ⟨⟨m, ram, tbl, c, sent, n, d, rfl⟩, -⟩ := h
  have htbl : tbl = _ := htbl
  subst htbl
  rfl

/-- What has waited goes out with the update. -/
theorem update_due (hsame : Unfit netif ip → s' = s) {ethaddr : MacAddrT} (hheeds : ¬Unfit netif ip →
    Heeds ip ethaddr s.arpTable s'.arpTable ∧ ∃ fs, Due netif ip ethaddr s fs ∧ frames s' = frames s ++ fs) :
    ∃ fs, frames s' = frames s ++ fs ∧
      (Unfit netif ip ∧ fs = [] ∨ ¬Unfit netif ip ∧ Due netif ip ethaddr s fs) := by
  by_cases hunfit : Unfit netif ip
  · rw [hsame hunfit]
    exact ⟨[], (List.append_nil _).symm, .inl ⟨hunfit, rfl⟩⟩
  · obtain ⟨-, fs, hfs, hframes⟩ := hheeds hunfit
    exact ⟨fs, hframes, .inr ⟨hunfit, hfs⟩⟩

theorem etharpInput_inv (h : Inv netif P K L (x ::ₘ own) s) (hapart : ∀ y ∈ x ::ₘ own, y ∉ held s)
    (hl : ⟨x, (s.memory.pbuf x).payload⟩ = l) (hann : ArpFit s.memory l →
      K (word32 s.memory l 14) (macAt s.memory l 8) ∧
        (¬Unfit netif (word32 s.memory l 14) → L (word32 s.memory l 14) (macAt s.memory l 8))) :
    wp (etharpInput [x] netif) (fun _ s' ↦ Taught netif P K L own l s s') s := by
  have hcons : own ≤ x ::ₘ own := Multiset.le_cons_self own x
  have hbuf : l.buf = x := congrArg Loc.buf hl.symm
  unfold etharpInput
  simp only [wp_bind, wp_payloadOf, hl, wp_load16, wp_load8]
  refine wp_ite (fun hunfit ↦ ?_) fun hfit ↦ ?_
  · have hno : ¬ArpFit s.memory l := by
      rintro ⟨h0, h4, h5, h2⟩
      simp only [h0, h4, h5, h2, ne_eq, not_true, or_self] at hunfit
    refine wp_bind.mpr (wp_mono (freeChain_inv h) ?_)
    rintro - s' ⟨hinv, hspares, htbl, hframes⟩
    exact ⟨hinv, hspares, fun y hy ↦ (hspares.held htbl) ▸ hy, fun _ ↦ ⟨htbl, hframes⟩, fun hfit ↦ absurd hfit hno,
      fun _ ↦ htbl, fun hfit ↦ absurd hfit hno⟩
  · have hfit : ArpFit s.memory l := by
      simp only [not_or, ne_eq, not_not] at hfit
      exact hfit
    obtain ⟨hK, hL⟩ := hann hfit
    simp only [wp_bind, wp_load32, wp_loadMac]
    refine wp_mono (etharpUpdateArpEntry_inv h hapart _ hL) ?_
    rintro - s₁ ⟨hinv, hspares, hsubset, hsame, hheeds⟩
    have hbyte (i : ℕ) : byteAt s₁.memory l i = byteAt s.memory l i :=
      byteAt_alike (hbuf.symm ▸ hspares.2 x (Multiset.mem_cons_self x own)) i
    have hword : word16 s₁.memory l 6 = word16 s.memory l 6 := by simp only [word16, hbyte]
    have hmac : macAt s₁.memory l 8 = macAt s.memory l 8 := by simp only [macAt, hbyte]
    obtain ⟨fs, hfs, hdue⟩ := update_due hsame hheeds
    -- the table is as the update leaves it, whatever goes out
    have hfinish {s₂ : Stack} {gs : List (List Byte)} (hinv₂ : Inv netif P K L (x ::ₘ own) s₂)
        (hspares₂ : Spares (x ::ₘ own) s₁ s₂) (htbl₂ : s₂.arpTable = s₁.arpTable) (hframes₂ : frames s₂ = frames s₁ ++ gs)
        (hgs : ¬Asks netif s.memory l ∧ gs = [] ∨ Asks netif s.memory l ∧ (gs = [] ∧ Busy (x ::ₘ own + held s) ∨
            gs = [replyFrame netif (macAt s.memory l 8) (word32 s.memory l 14)])) :
        wp (freeChain [x]) (fun _ s' ↦ Taught netif P K L own l s s') s₂ := by
      refine wp_mono (freeChain_inv hinv₂) ?_
      rintro - s₃ ⟨hinv₃, hspares₃, htbl₃, hframes₃⟩
      have htbl : s₃.arpTable = s₁.arpTable := htbl₃.trans htbl₂
      have hall : Spares own s₁ s₃ := (hspares₂.mono hcons).trans hspares₃
      refine ⟨hinv₃, (hspares.mono hcons).trans hall, fun y hy ↦ hsubset y ((hall.held htbl) ▸ hy),
        fun hno ↦ absurd hfit hno, fun _ ↦ ⟨fs, gs, ?_, hdue, ?_⟩, fun hunfit ↦ ?_, fun _ hunfit ↦ ?_⟩
      · rw [hframes₃, hframes₂, hfs]
      · rw [hbuf]
        exact hgs
      · rw [htbl, hsame hunfit]
      · rw [htbl]
        exact (hheeds hunfit).1
    simp only [wp_load16, hword]
    refine wp_ite (fun hask ↦ ?_) fun hask ↦ ?_
    · simp only [wp_bind, wp_loadMac, hmac]
      refine wp_mono (etharpRaw_inv hinv (.reply hK)) ?_
      rintro r s₂ ⟨hinv₂, hspares₂, htbl₂, ⟨-, hframes₂, hbusy⟩ | ⟨-, hframes₂⟩⟩
      · refine hfinish hinv₂ hspares₂ htbl₂ (hframes₂.trans (List.append_nil _).symm)
          (.inr ⟨asks_iff.mp hask, .inl ⟨rfl, hbusy.mono fun y hy ↦ ?_⟩⟩)
        exact Multiset.mem_add.mpr ((Multiset.mem_add.mp hy).imp_right (hsubset y))
      · exact hfinish hinv₂ hspares₂ htbl₂ hframes₂ (.inr ⟨asks_iff.mp hask, .inr rfl⟩)
    · exact hfinish hinv (Spares.refl _ _) rfl (List.append_nil _).symm
        (.inl ⟨fun h ↦ hask (asks_iff.mpr h), rfl⟩)

end Input

end Enc28j60.Lwip
