import Enc28j60.Lwip.Resolution

namespace Enc28j60.Lwip

open RegisterMap StateLogic LowLayer Ethernetif

variable {T own own' : Multiset Ptr} {m : Memory} {ram : Heap} {x y : Ptr} {b b' : Pbuf} {s s' s'' : Stack} {i j : Fin 10}
  {tbl : Fin 10 → EtharpEntry} {e : EtharpEntry} {netif : Ip4Netif} {ip : Word32} {c : EtharpScan}
  {P : List Byte → Prop} {K L : Word32 → MacAddrT → Prop}

section Routing

/-- An entry for the address knows its hardware address. -/
def Resolved (s : Stack) (a : Word32) : Prop := ∃ i, (s.arpTable i).state.resolved = true ∧ (s.arpTable i).ipaddr = a

theorem Inv.queue_nil (h : Inv netif P K L own s) (hi : (s.arpTable i).state ≠ .pending) : (s.arpTable i).q = [] := by
  by_contra hq
  exact hi (h.table.queue i hq).1

/-- A change of the state alone. -/
theorem Inv.restate (h : Inv netif P K L own s) (hq : (s.arpTable i).q = []) (state : EtharpState)
    (hu : ∀ j ≠ i, (s.arpTable j).state ≠ .empty → (s.arpTable j).ipaddr ≠ (s.arpTable i).ipaddr)
    (hy : { s.arpTable i with state }.Young)
    (hk : state.resolved = true → L (s.arpTable i).ipaddr (s.arpTable i).ethaddr) :
    Inv netif P K L own { s with arpTable := Function.update s.arpTable i { s.arpTable i with state } } ∧
      held { s with arpTable := Function.update s.arpTable i { s.arpTable i with state } } = held s := by
  have hupdate := held_update s i { s.arpTable i with state }
  refine ⟨h.update ?_ rfl (fun hne ↦ absurd hq hne) (fun _ ↦ hu) (fun _ ↦ hy) hk ?_, add_right_cancel hupdate⟩
  · rw [add_right_cancel hupdate]
    exact h.nodup
  · intro y hy
    rw [hq] at hy
    cases hy

theorem etharpOutputToArpIndex_inv (h : Inv netif P K L (x ::ₘ own) s) (hown : x ∉ own) (hheld : x ∉ held s)
    (hroom : 14 ≤ (s.memory.pbuf x).payload) (hP : P (s.memory.pbuf x).bytes)
    (hi : (s.arpTable i).state.resolved = true)
    (hhop : nextHop netif (destOf (s.memory.pbuf x).bytes) = (s.arpTable i).ipaddr) :
    wp (etharpOutputToArpIndex netif [x] i) (fun _ s' ↦ Inv netif P K L (x ::ₘ own) s' ∧ Spares own s s' ∧ held s' = held s ∧
      ∃ fs, frames s' = frames s ++ fs ++
          [ethFrame netif.hwaddr (s.arpTable i).ethaddr ethtypeIp (s.memory.pbuf x).bytes] ∧
        (fs = [] ∨ arpAgeRerequestUsedUnicast ≤ (s.arpTable i).ctime ∧
          ∃ dst, fs = [requestFrame netif dst (s.arpTable i).ipaddr])) s := by
  have hL := h.known i hi
  have hK := (h.trusted _ _ hL).2
  have hne : (s.arpTable i).state ≠ .empty := fun he ↦ by simp [he, EtharpState.resolved] at hi
  have hnil : (s.arpTable i).q = [] := h.queue_nil fun he ↦ by simp [he, EtharpState.resolved] at hi
  have hxown : x ∈ x ::ₘ own := Multiset.mem_cons_self x own
  -- the packet goes out from any state that differs in the state of the entry at most
  have hsend {s₁ : Stack} {fs : List (List Byte)} (h₁ : Inv netif P K L (x ::ₘ own) s₁) (hspares : Spares (x ::ₘ own) s s₁)
      (hsame : held s₁ = held s) (hmac : (s₁.arpTable i).ethaddr = (s.arpTable i).ethaddr)
      (hfs : frames s₁ = frames s ++ fs) (hreq : fs = [] ∨ arpAgeRerequestUsedUnicast ≤ (s.arpTable i).ctime ∧
        ∃ dst, fs = [requestFrame netif dst (s.arpTable i).ipaddr]) :
      wp (do let e ← entry i; ethernetOutput netif [x] netif.hwaddr e.ethaddr ethtypeIp) (fun _ s' ↦
        Inv netif P K L (x ::ₘ own) s' ∧ Spares own s s' ∧ held s' = held s ∧ ∃ fs, frames s' = frames s ++ fs ++
          [ethFrame netif.hwaddr (s.arpTable i).ethaddr ethtypeIp (s.memory.pbuf x).bytes] ∧
        (fs = [] ∨ arpAgeRerequestUsedUnicast ≤ (s.arpTable i).ctime ∧
          ∃ dst, fs = [requestFrame netif dst (s.arpTable i).ipaddr])) s₁ := by
    have halike := hspares.2 x hxown
    have hbytes := halike.bytes
    have hpayload : (s₁.memory.pbuf x).payload = (s.memory.pbuf x).payload := by rw [halike]
    simp only [wp_bind, wp_entry, hmac]
    refine wp_mono (ethernetOutput_inv h₁ hown (hsame ▸ hheld) (hpayload ▸ hroom) (.packet ?_ ?_)) ?_
    · rw [hbytes]
      exact hP
    · rw [hbytes]
      right
      right
      rw [hhop]
      exact hK
    · rintro - s₂ ⟨hinv₂, hspares₂, htbl₂, hframes₂⟩
      refine ⟨hinv₂, (hspares.mono (Multiset.le_cons_self own x)).trans hspares₂, (hspares₂.held htbl₂).trans hsame, fs,
        ?_, hreq⟩
      rw [hframes₂, hfs, hbytes]
  -- a request that has gone out is noted in the entry
  have hasked {s₁ : Stack} {dst : MacAddrT} {r : ErrT} (hold : arpAgeRerequestUsedUnicast ≤ (s.arpTable i).ctime)
      (h₁ : Inv netif P K L (x ::ₘ own) s₁) (hspares : Spares (x ::ₘ own) s s₁) (htbl : s₁.arpTable = s.arpTable)
      (hfs : r = .mem ∧ frames s₁ = frames s ∧ Busy (x ::ₘ own + held s) ∨
        r = .ok ∧ frames s₁ = frames s ++ [requestFrame netif dst (s.arpTable i).ipaddr]) :
      wp (do
          if r = .ok then setEntry i fun e ↦ { e with state := .stableRerequesting1 }
          let e ← entry i
          ethernetOutput netif [x] netif.hwaddr e.ethaddr ethtypeIp) (fun _ s' ↦
        Inv netif P K L (x ::ₘ own) s' ∧ Spares own s s' ∧ held s' = held s ∧ ∃ fs, frames s' = frames s ++ fs ++
          [ethFrame netif.hwaddr (s.arpTable i).ethaddr ethtypeIp (s.memory.pbuf x).bytes] ∧
        (fs = [] ∨ arpAgeRerequestUsedUnicast ≤ (s.arpTable i).ctime ∧
          ∃ dst, fs = [requestFrame netif dst (s.arpTable i).ipaddr])) s₁ := by
    have hsame := hspares.held htbl
    rcases hfs with ⟨rfl, hframes, -⟩ | ⟨rfl, hframes⟩
    · rw [if_neg (by decide)]
      exact hsend h₁ hspares hsame (by rw [htbl]) (hframes.trans (List.append_nil _).symm) (.inl rfl)
    · have halone : ∀ j ≠ i, (s₁.arpTable j).state ≠ .empty → (s₁.arpTable j).ipaddr ≠ (s₁.arpTable i).ipaddr := by
        rw [htbl]
        exact fun j hj hstate hip ↦ hj (h.table.unique j i hstate hne hip)
      obtain ⟨hinv, hheld₂⟩ := h₁.restate (i := i) (by rw [htbl]; exact hnil) .stableRerequesting1 halone
        ⟨by rw [htbl]; exact (h.table.young i hne).1, fun hp ↦ EtharpState.noConfusion hp⟩ fun _ ↦ by rw [htbl]; exact hL
      rw [if_pos rfl]
      refine wp_bind.mpr (wp_setEntry.mpr ?_)
      refine hsend hinv (hspares.trans ⟨⟨_, _, _, _, _, _, _, rfl⟩, fun _ _ ↦ Alike.refl _⟩) (hheld₂.trans hsame) ?_
        hframes (.inr ⟨hold, dst, rfl⟩)
      simp only [Function.update_self, htbl]
  have hlater : arpAgeRerequestUsedUnicast ≤ arpAgeRerequestUsedBroadcast := by decide
  unfold etharpOutputToArpIndex
  simp only [wp_bind, wp_entry]
  refine wp_ite (fun hstable ↦ ?_) fun _ ↦ hsend h (Spares.refl _ _) rfl rfl (List.append_nil _).symm (.inl rfl)
  refine wp_ite (fun hold ↦ ?_) fun _ ↦ wp_ite (fun hold ↦ ?_) fun _ ↦
    hsend h (Spares.refl _ _) rfl rfl (List.append_nil _).symm (.inl rfl)
  · refine wp_bind.mpr (wp_mono (etharpRequest_inv h) ?_)
    rintro r s₁ ⟨hinv, hspares, htbl, hfs⟩
    exact hasked (BitVec.le_trans hlater hold) hinv hspares htbl hfs
  · refine wp_bind.mpr (wp_mono (etharpRequestDst_inv h (.inr hK)) ?_)
    rintro r s₁ ⟨hinv, hspares, htbl, hfs⟩
    exact hasked hold hinv hspares htbl hfs

/-- A packet of the caller waits for an address whose entry has none. -/
theorem Inv.wait (h : Inv netif P K L (x ::ₘ own) s) (hheld : x ∉ held s) (hi : (s.arpTable i).state = .pending)
    (hq : (s.arpTable i).q = []) (hx : Held netif P (s.arpTable i).ipaddr (s.memory.pbuf x)) :
    Inv netif P K L own { s with arpTable := Function.update s.arpTable i { s.arpTable i with q := [x] } } ∧
      ∀ y ∈ held { s with arpTable := Function.update s.arpTable i { s.arpTable i with q := [x] } }, y = x ∨ y ∈ held s := by
  have hne : (s.arpTable i).state ≠ .empty := fun he ↦ by cases he.symm.trans hi
  have hupdate := held_update s i { s.arpTable i with q := [x] }
  rw [hq, Multiset.coe_nil, add_zero, Multiset.coe_singleton, add_comm, Multiset.singleton_add] at hupdate
  refine ⟨h.update ?_ ?_ (fun _ ↦ ⟨hi, x, rfl⟩) (fun _ j hj hstate hip ↦ hj (h.table.unique j i hstate hne hip))
    (fun _ ↦ h.table.young i hne) (h.known i) ?_, fun y hy ↦ ?_⟩
  · rw [hupdate]
    exact Multiset.nodup_cons.mpr ⟨hheld, h.nodup⟩
  · change own + ([x] : Multiset Ptr) = _
    rw [hq, add_comm]
    exact (add_zero _).symm
  · intro y hy
    rwa [List.mem_singleton.mp hy]
  · rw [hupdate] at hy
    exact Multiset.mem_cons.mp hy

/-- The packet of an entry has been given up, and the entry still names it. -/
structure Stale (netif : Ip4Netif) (P : List Byte → Prop) (K L : Word32 → MacAddrT → Prop) (own : Multiset Ptr)
    (i : Fin 10) (s s' : Stack) : Prop where
  inv : Inv netif P K L own { s' with arpTable := Function.update s'.arpTable i { s'.arpTable i with q := [] } }
  spares : Spares own s s'
  table : s'.arpTable = s.arpTable
  frames : frames s' = frames s

theorem Inv.stale (h : Inv netif P K L own s) (hq : (s.arpTable i).q = []) : Stale netif P K L own i s s := by
  have hsame : Function.update s.arpTable i { s.arpTable i with q := [] } = s.arpTable := by
    rw [← hq]
    exact Function.update_eq_self i s.arpTable
  refine ⟨?_, Spares.refl _ _, rfl, rfl⟩
  rw [hsame]
  exact h

theorem freeQueue_inv (h : Inv netif P K L own s) (hq : (s.arpTable i).q ≠ []) :
    wp (freeChain (s.arpTable i).q) (fun _ s' ↦ Stale netif P K L own i s s') s := by
  obtain ⟨hi, z, hz⟩ := h.table.queue i hq
  have hne : (s.arpTable i).state ≠ .empty := fun he ↦ by cases he.symm.trans hi
  have hwithout : Inv netif P K L (z ::ₘ own) { s with
      arpTable := Function.update s.arpTable i { s.arpTable i with q := [] } } := by
    refine h.update (nodup_update h.nodup rfl) ?_ (fun hq ↦ absurd rfl hq)
      (fun _ j hj hstate hip ↦ hj (h.table.unique j i hstate hne hip)) (fun _ ↦ h.table.young i hne) (h.known i)
      (List.forall_mem_nil _)
    rw [hz, add_comm own]
    exact add_zero _
  have hacc := hwithout.accounts
  rw [Multiset.cons_add] at hacc
  rw [hz]
  refine wp_mono (freeChain_spec hacc) ?_
  rintro - s₁ ⟨m, ram, rfl, hacc, halike⟩
  exact ⟨hwithout.output hacc (fun _ y _ ↦ halike y) h.proper, ⟨⟨_, _, _, _, _, _, _, rfl⟩, fun y _ ↦ halike y⟩, rfl, rfl⟩

/-- One more reference to a packet of the caller. -/
theorem pbufRef_inv (h : Inv netif P K L (x ::ₘ own) s) (hown : x ∉ own) (hheld : x ∉ held s) :
    wp (pbufRef [x]) (fun _ s' ↦ Inv netif P K L (x ::ₘ x ::ₘ own) s' ∧ Spares (x ::ₘ own) s s' ∧
      s'.arpTable = s.arpTable ∧ frames s' = frames s) s := by
  have hin : x ∈ x ::ₘ own + held s := Multiset.mem_add.mpr (.inl (Multiset.mem_cons_self x own))
  have hone : (x ::ₘ own + held s).count x = 1 := by
    rw [Multiset.count_add, Multiset.count_cons_self, Multiset.count_eq_zero.mpr hown, Multiset.count_eq_zero.mpr hheld]
  have halike (y : Ptr) : Alike (s.memory.pbuf y) ((s.memory.set x { s.memory.pbuf x with
      ref := (s.memory.pbuf x).ref + 1 }).pbuf y) := by
    by_cases he : y = x
    · subst he
      rw [set_pbuf_self]
      rfl
    · rw [set_pbuf_of_ne he]
      exact Alike.refl _
  have hacc := h.accounts.ref hin (by rw [hone]; decide)
  rw [← Multiset.cons_add] at hacc
  exact ⟨h.output hacc (fun _ y _ ↦ halike y) h.proper, ⟨⟨_, _, _, _, _, _, _, rfl⟩, fun y _ ↦ halike y⟩, rfl, rfl⟩

/-- A packet takes the place of the one that has waited. -/
theorem Stale.wait (h : Stale netif P K L (x ::ₘ own) i s s') (hheld : x ∉ held s) (hi : (s.arpTable i).state = .pending)
    (hx : Held netif P (s.arpTable i).ipaddr (s'.memory.pbuf x)) :
    Inv netif P K L own { s' with arpTable := Function.update s'.arpTable i { s'.arpTable i with q := [x] } } ∧
      ∀ y ∈ held { s' with arpTable := Function.update s'.arpTable i { s'.arpTable i with q := [x] } }, y = x ∨ y ∈ held s := by
  have hsame : held s' = held s := h.spares.held h.table
  have hsub {y : Ptr} (hy : y ∈ held { s' with arpTable := Function.update s'.arpTable i { s'.arpTable i with q := [] } }) :
      y ∈ held s := hsame ▸ held_subset (s := s') rfl hy
  obtain ⟨hinv, hmem⟩ := h.inv.wait (i := i) (fun hy ↦ hheld (hsub hy)) (by simp only [Function.update_self, h.table, hi])
    (by simp only [Function.update_self]) (by simp only [Function.update_self, h.table]; exact hx)
  simp only [Function.update_self, Function.update_idem] at hinv hmem
  exact ⟨hinv, fun y hy ↦ (hmem y hy).imp_right hsub⟩

/-- A packet waits for an address, after any other packets for it have been given up. -/
structure Waits (netif : Ip4Netif) (ip : Word32) (x : Ptr) (s s' : Stack) : Prop where
  entry : ∃ i, (s'.arpTable i).ipaddr = ip ∧ (s'.arpTable i).q = [x]
  subset : ∀ y ∈ held s', y = x ∨ y ∈ held s
  alike : Alike (s.memory.pbuf x) (s'.memory.pbuf x)
  asked : frames s' = frames s ∨ frames s' = frames s ++ [requestFrame netif ethbroadcast ip]

theorem queuePacket_inv (h : Inv netif P K L (x ::ₘ own) s) (hown : x ∉ own) (hheld : x ∉ held s)
    (hi : (s.arpTable i).state = .pending) (hx : Held netif P (s.arpTable i).ipaddr (s.memory.pbuf x)) :
    wp (queuePacket i [x]) (fun _ s' ↦ Inv netif P K L (x ::ₘ own) s' ∧ Spares (x ::ₘ own) s s' ∧
      (s'.arpTable i).ipaddr = (s.arpTable i).ipaddr ∧ (s'.arpTable i).q = [x] ∧
      (∀ y ∈ held s', y = x ∨ y ∈ held s) ∧ frames s' = frames s) s := by
  have hxown : x ∈ x ::ₘ own := Multiset.mem_cons_self x own
  have hcopy : copyNeeded s.memory [x] = false := by
    have hsingle := h.accounts.single x (Multiset.mem_add.mpr (.inl hxown))
    have htype : typeOf x &&& pbufTypeFlagDataVolatile = 0 := by
      unfold typeOf
      split <;> rfl
    simp only [copyNeeded, List.any_cons, List.any_nil, hsingle.type, htype]
    rfl
  unfold queuePacket
  simp only [wp_bind, wp_get, hcopy, Bool.false_eq_true, if_false]
  refine wp_mono (pbufRef_inv h hown hheld) ?_
  rintro - s₁ ⟨h₁, hspares₁, htbl₁, hframes₁⟩
  have hheld₁ := hspares₁.held htbl₁
  have hfinish {s₂ : Stack} (hstale : Stale netif P K L (x ::ₘ x ::ₘ own) i s₁ s₂) :
      wp (do setEntry i fun e ↦ { e with q := [x] }; pure ErrT.ok) (fun _ s' ↦ Inv netif P K L (x ::ₘ own) s' ∧
        Spares (x ::ₘ own) s s' ∧ (s'.arpTable i).ipaddr = (s.arpTable i).ipaddr ∧ (s'.arpTable i).q = [x] ∧
        (∀ y ∈ held s', y = x ∨ y ∈ held s) ∧ frames s' = frames s) s₂ := by
    have hall : Spares (x ::ₘ own) s s₂ := hspares₁.trans (hstale.spares.mono (Multiset.le_cons_self _ x))
    obtain ⟨hinv, hmem⟩ := hstale.wait (hheld₁ ▸ hheld) (by rw [htbl₁, hi]) (by
      rw [htbl₁]
      exact hx.alike (hall.2 x hxown))
    refine wp_bind.mpr (wp_setEntry.mpr (wp_pure.mpr ⟨hinv, hall.trans ⟨⟨_, _, _, _, _, _, _, rfl⟩, fun _ _ ↦ Alike.refl _⟩,
      ?_, ?_, fun y hy ↦ ?_, ?_⟩))
    · simp only [Function.update_self, hstale.table, htbl₁]
    · simp only [Function.update_self]
    · exact hheld₁ ▸ hmem y hy
    · exact hstale.frames.trans hframes₁
  simp only [wp_pure, ne_eq, List.cons_ne_nil, not_false_eq_true, if_true, wp_bind, wp_entry]
  refine wp_ite (fun hq ↦ ?_) fun hq ↦ ?_
  · exact wp_seq (freeQueue_inv h₁ hq) fun _ s₂ hstale ↦ hfinish hstale
  · exact hfinish (h₁.stale (not_not.mp hq))

theorem etharpQuery_inv (h : Inv netif P K L (x ::ₘ own) s) (hown : x ∉ own) (hheld : x ∉ held s)
    (hx : Held netif P ip (s.memory.pbuf x)) (hnew : ¬Resolved s ip) :
    wp (etharpQuery netif ip [x]) (fun _ s' ↦ Inv netif P K L (x ::ₘ own) s' ∧ Spares (x ::ₘ own) s s' ∧
      (Unfit netif ip ∧ s' = s ∨ ¬Unfit netif ip ∧ Waits netif ip x s s')) s := by
  have hxown : x ∈ x ::ₘ own := Multiset.mem_cons_self x own
  unfold etharpQuery
  refine wp_ite (fun hno ↦ ⟨h, Spares.refl _ _, .inl ⟨hno, rfl⟩⟩) fun hfit ↦ ?_
  refine wp_seq (etharpFindEntry_located h ip etharpFlagTryHard) ?_
  rintro r s₁ ⟨h₁, hspares₁, hframes₁, ⟨-, -, -, hflags, -⟩ | ⟨i, rfl, hloc⟩⟩
  · exact absurd rfl hflags
  have hfree₁ : x ∉ held s₁ := fun hy ↦ hheld (hloc.subset x hy)
  -- the end, once the entry is pending and any request is out
  have hend {s₂ : Stack} (r : ErrT) (h₂ : Inv netif P K L (x ::ₘ own) s₂) (hspares₂ : Spares (x ::ₘ own) s s₂)
      (hi : (s₂.arpTable i).state = .pending) (hip : (s₂.arpTable i).ipaddr = ip) (hsub : ∀ y ∈ held s₂, y ∈ held s)
      (hasked : frames s₂ = frames s ∨ frames s₂ = frames s ++ [requestFrame netif ethbroadcast ip]) :
      wp (sendOrQueue netif i [x] r) (fun _ s' ↦ Inv netif P K L (x ::ₘ own) s' ∧ Spares (x ::ₘ own) s s' ∧
        (Unfit netif ip ∧ s' = s ∨ ¬Unfit netif ip ∧ Waits netif ip x s s')) s₂ := by
    unfold sendOrQueue
    simp only [List.cons_ne_nil, if_false, wp_bind, wp_entry, hi, if_true]
    refine wp_mono (queuePacket_inv h₂ hown (fun hy ↦ hheld (hsub x hy)) hi ?_) ?_
    · rw [hip]
      exact hx.alike (hspares₂.2 x hxown)
    · rintro - s' ⟨hinv, hspares, hip', hq, hmem, hframes⟩
      have hall := hspares₂.trans hspares
      refine ⟨hinv, hall, .inr ⟨hfit, ⟨i, hip'.trans hip, hq⟩, fun y hy ↦ (hmem y hy).imp_right (hsub y), hall.2 x hxown, ?_⟩⟩
      rw [hframes]
      exact hasked
  simp only [wp_bind, wp_entry]
  rcases hloc.fresh with ⟨hempty, hq, hctime, -⟩ | ⟨rfl, hstate⟩
  · have halone : ∀ j ≠ i, (s₁.arpTable j).state ≠ .empty → (s₁.arpTable j).ipaddr ≠ (s₁.arpTable i).ipaddr := by
      rw [hloc.here]
      exact hloc.alone
    obtain ⟨h₂, hheld₂⟩ := h₁.restate hq .pending halone
      ⟨by rw [hctime]; decide, fun _ ↦ by rw [hctime]; decide⟩ fun hres ↦ Bool.noConfusion hres
    simp only [hempty, beq_self_eq_true, if_true, wp_bind, wp_setEntry, true_or]
    refine wp_mono (etharpRequest_inv h₂) ?_
    rintro r s₃ ⟨h₃, hspares₃, htbl₃, hasked⟩
    simp only [wp_entry, Bool.not_true, Bool.false_eq_true, and_false, if_false]
    refine hend r h₃ ?_ ?_ ?_ (fun y hy ↦ ?_) ?_
    · exact hspares₁.trans (Spares.trans ⟨⟨_, _, _, _, _, _, _, rfl⟩, fun _ _ ↦ Alike.refl _⟩ hspares₃)
    · simp only [htbl₃, Function.update_self]
    · simp only [htbl₃, Function.update_self]
      exact hloc.here
    · rw [hspares₃.held htbl₃, hheld₂] at hy
      exact hloc.subset y hy
    · rcases hasked with ⟨-, hframes, -⟩ | ⟨-, hframes⟩
      · exact .inl (hframes.trans hframes₁)
      · refine .inr (hframes.trans ?_)
        rw [← hframes₁]
        rfl
  · have hpending : (s₁.arpTable i).state = .pending := by
      have hno : ¬(s₁.arpTable i).state.resolved = true := fun hres ↦ hnew ⟨i, hres, hloc.here⟩
      revert hstate hno
      cases (s₁.arpTable i).state <;> simp [EtharpState.resolved]
    have hold : ((s₁.arpTable i).state == .empty) = false := by
      rw [hpending]
      rfl
    simp only [hold, Bool.false_eq_true, if_false, false_or, List.cons_ne_nil]
    exact hend _ h (Spares.refl _ _) hpending hloc.here (fun _ hy ↦ hy) (.inl rfl)

/-- A packet for `a` goes out at once. -/
def Direct (netif : Ip4Netif) (s : Stack) (a : Word32) : Prop :=
  ip4AddrIsbroadcast a netif = true ∨ ip4AddrIsmulticast a = true ∨ Resolved s (nextHop netif a)

/-- What becomes of a packet for `a`: it goes out, it waits for its next hop, or it has none. -/
inductive Routed (netif : Ip4Netif) (L : Word32 → MacAddrT → Prop) (a : Word32) (x : Ptr) (s s' : Stack) : Prop
  | sent (fs : List (List Byte)) {dst : MacAddrT} : Direct netif s a → Reaches netif L a dst → held s' = held s →
      (fs = [] ∨ ∃ dst, fs = [requestFrame netif dst (nextHop netif a)]) →
      frames s' = frames s ++ fs ++ [ethFrame netif.hwaddr dst ethtypeIp (s.memory.pbuf x).bytes] → Routed netif L a x s s'
  | waits : ¬Direct netif s a → ¬Unfit netif (nextHop netif a) → Waits netif (nextHop netif a) x s s' → Routed netif L a x s s'
  | dropped : ¬Direct netif s a → Unfit netif (nextHop netif a) → s' = s → Routed netif L a x s s'

theorem findStable_spec (tbl : Fin 10 → EtharpEntry) (a : Word32) :
    (∃ i, findStable tbl a = some i ∧ (tbl i).state.resolved = true ∧ (tbl i).ipaddr = a) ∨
      findStable tbl a = none ∧ ¬∃ i, (tbl i).state.resolved = true ∧ (tbl i).ipaddr = a := by
  cases heq : findStable tbl a with
  | some i =>
    have hi := List.find?_some heq
    simp only [Bool.and_eq_true, beq_iff_eq] at hi
    exact .inl ⟨i, rfl, hi.1, hi.2.symm⟩
  | none =>
    refine .inr ⟨rfl, fun ⟨i, hres, hip⟩ ↦ ?_⟩
    have hi := List.find?_eq_none.mp heq i (List.mem_finRange i)
    simp [hres, hip] at hi

/-- A packet that goes out by itself. -/
theorem ethernetOutput_routed (h : Inv netif P K L (x ::ₘ own) s) (hown : x ∉ own) (hheld : x ∉ held s)
    (hroom : 14 ≤ (s.memory.pbuf x).payload) (hP : P (s.memory.pbuf x).bytes) {a : Word32} {dst : MacAddrT}
    (ha : destOf (s.memory.pbuf x).bytes = a) (hdirect : Direct netif s a) (hreach : Reaches netif L a dst) :
    wp (ethernetOutput netif [x] netif.hwaddr dst ethtypeIp) (fun _ s' ↦ Inv netif P K L (x ::ₘ own) s' ∧ Spares own s s' ∧
      Routed netif L a x s s') s := by
  have hreachK : Reaches netif K (destOf (s.memory.pbuf x).bytes) dst := by
    rw [ha]
    exact hreach.imp_right (Or.imp_right fun hL ↦ (h.trusted _ _ hL).2)
  refine wp_mono (ethernetOutput_inv h hown hheld hroom (.packet hP hreachK)) ?_
  rintro - s' ⟨hinv, hspares, htbl, hframes⟩
  refine ⟨hinv, hspares, .sent [] hdirect hreach (hspares.held htbl) (.inl rfl) ?_⟩
  rw [List.append_nil]
  exact hframes

theorem etharpOutput_inv (h : Inv netif P K L (x ::ₘ own) s) (hown : x ∉ own) (hheld : x ∉ held s)
    (hroom : 14 ≤ (s.memory.pbuf x).payload) (hP : P (s.memory.pbuf x).bytes) {a : Word32}
    (ha : destOf (s.memory.pbuf x).bytes = a) :
    wp (etharpOutput netif [x] a) (fun _ s' ↦ Inv netif P K L (x ::ₘ own) s' ∧ Spares own s s' ∧
      Routed netif L a x s s') s := by
  have hle : own ≤ x ::ₘ own := Multiset.le_cons_self own x
  -- out by an entry
  have hindex {s₁ : Stack} (i : Fin 10) (hsame : ∃ c, s₁ = { s with etharpCachedEntry := c })
      (hi : (s.arpTable i).state.resolved = true) (hip : nextHop netif a = (s.arpTable i).ipaddr) :
      wp (etharpOutputToArpIndex netif [x] i) (fun _ s' ↦ Inv netif P K L (x ::ₘ own) s' ∧ Spares own s s' ∧
        Routed netif L a x s s') s₁ := by
    obtain ⟨c, rfl⟩ := hsame
    have h₁ : Inv netif P K L (x ::ₘ own) { s with etharpCachedEntry := c } :=
      ⟨h.trusted, h.accounts, h.nodup, h.table, h.known, h.queue, h.waiting, h.proper⟩
    refine wp_mono (etharpOutputToArpIndex_inv h₁ hown hheld hroom hP hi (by rw [ha]; exact hip)) ?_
    rintro - s' ⟨hinv, hspares, hsame, fs, hframes, hfs⟩
    refine ⟨hinv, Spares.trans ⟨⟨_, _, _, _, _, _, _, rfl⟩, fun _ _ ↦ Alike.refl _⟩ hspares,
      .sent fs (.inr (.inr ⟨i, hi, hip.symm⟩)) ?_ hsame ?_ hframes⟩
    · right
      right
      rw [hip]
      exact h.known i hi
    · rw [hip]
      exact hfs.imp_right And.right
  unfold etharpOutput
  refine wp_ite (fun hb ↦ ethernetOutput_routed h hown hheld hroom hP ha (.inl hb) (.inl ⟨hb, rfl⟩)) fun hb ↦ ?_
  refine wp_ite (fun hm ↦ ?_) fun hm ↦ ?_
  · exact ethernetOutput_routed h hown hheld hroom hP ha (.inr (.inl hm)) (.inr (.inl ⟨hm, rfl⟩))
  have hresolved : Direct netif s a → Resolved s (nextHop netif a) :=
    fun hdirect ↦ (hdirect.resolve_left hb).resolve_left hm
  refine wp_ite (fun hno ↦ ?_) fun hyes ↦ ?_
  · have hunfit : Unfit netif (nextHop netif a) := by
      simp only [Bool.and_eq_true] at hno
      simp only [Unfit, nextHop, hno, Bool.and_self, if_true, Bool.true_or]
    refine ⟨h, Spares.refl _ _, .dropped (fun hdirect ↦ ?_) hunfit rfl⟩
    obtain ⟨i, hi, hip⟩ := hresolved hdirect
    exact (h.trusted _ _ (h.known i hi)).1 (hip ▸ hunfit)
  simp only [wp_bind, wp_get]
  refine wp_ite (fun hcached ↦ hindex s.etharpCachedEntry ⟨_, rfl⟩ hcached.1 hcached.2) fun _ ↦ ?_
  rcases findStable_spec s.arpTable (nextHop netif a) with ⟨i, heq, hi, hip⟩ | ⟨heq, hnone⟩
  · simp only [nextHop] at heq
    simp only [heq, wp_bind, wp_modify]
    exact hindex i ⟨i, rfl⟩ hi hip.symm
  · have hdirect : ¬Direct netif s a := fun hdirect ↦ hnone (hresolved hdirect)
    have hwait : Held netif P (nextHop netif a) (s.memory.pbuf x) := ⟨hroom, hP, by rw [ha]⟩
    simp only [nextHop] at heq
    simp only [heq]
    refine wp_mono (etharpQuery_inv h hown hheld hwait hnone) ?_
    rintro - s' ⟨hinv, hspares, ⟨hunfit, rfl⟩ | ⟨hfit, hwaits⟩⟩
    · exact ⟨hinv, hspares.mono hle, .dropped hdirect hunfit rfl⟩
    · exact ⟨hinv, hspares.mono hle, .waits hdirect hfit hwaits⟩

end Routing

section Timer

/-- An entry after a tick of the timer. -/
def EtharpEntry.aged (e : EtharpEntry) : EtharpEntry :=
  if e.state = .empty then e
  else if arpMaxage ≤ e.ctime + 1 ∨ e.state = .pending ∧ arpMaxpending ≤ e.ctime + 1 then
    { e.freed with ctime := e.ctime + 1 }
  else
    { e with
      ctime := e.ctime + 1
      state := match e.state with
        | .stableRerequesting1 => .stableRerequesting2
        | .stableRerequesting2 => .stable
        | state => state }

theorem aged_fields (e : EtharpEntry) : e.aged.ipaddr = e.ipaddr ∧ e.aged.ethaddr = e.ethaddr ∧
    (e.aged.q = e.q ∨ e.aged.q = []) ∧ (e.aged.state ≠ .empty → e.state ≠ .empty) := by
  unfold EtharpEntry.aged
  split
  · exact ⟨rfl, rfl, .inl rfl, id⟩
  · split
    · exact ⟨rfl, rfl, .inr rfl, fun hstate ↦ absurd rfl hstate⟩
    · exact ⟨rfl, rfl, .inl rfl, fun _ ↦ ‹_›⟩

theorem etharpTmrEntry_inv (h : Inv netif P K L own s) (i : Fin 10) :
    wp (etharpTmrEntry netif i) (fun _ s' ↦ Inv netif P K L own s' ∧ Spares own s s' ∧
      s'.arpTable = Function.update s.arpTable i (s.arpTable i).aged ∧ ∃ fs, frames s' = frames s ++ fs ∧
        (fs = [] ∨ (s.arpTable i).state = .pending ∧ fs = [requestFrame netif ethbroadcast (s.arpTable i).ipaddr])) s := by
  unfold etharpTmrEntry
  simp only [wp_bind, wp_entry]
  refine wp_ite (fun hne ↦ ?_) fun hempty ↦ ?_
  · simp only [wp_bind, wp_setEntry, wp_entry, Function.update_self]
    refine wp_ite (fun hold ↦ ?_) fun hyoung ↦ ?_
    · have hinv : Inv netif P K L own { s with arpTable := Function.update (Function.update s.arpTable i
          { s.arpTable i with ctime := (s.arpTable i).ctime + 1 }) i (s.arpTable i) } := by
        rw [Function.update_idem, Function.update_eq_self]
        exact h
      refine wp_mono (etharpFreeEntry_of (by simp only [Function.update_self]) hinv) ?_
      rintro - s' ⟨hinv, hspares, htbl, hframes⟩
      refine ⟨hinv, Spares.trans ⟨⟨_, _, _, _, _, _, _, rfl⟩, fun _ _ ↦ Alike.refl _⟩ hspares, ?_, [], ?_, .inl rfl⟩
      · rw [htbl]
        simp only [Function.update_self, Function.update_idem]
        rw [EtharpEntry.aged, if_neg hne, if_pos hold]
        rfl
      · rw [List.append_nil]
        exact hframes
    · have haged : (s.arpTable i).aged = { s.arpTable i with
          ctime := (s.arpTable i).ctime + 1
          state := match (s.arpTable i).state with
            | .stableRerequesting1 => .stableRerequesting2
            | .stableRerequesting2 => .stable
            | state => state } := by
        rw [EtharpEntry.aged, if_neg hne, if_neg hyoung]
      have hinv (state : EtharpState) (hstate : state = .pending ↔ (s.arpTable i).state = .pending)
          (hres : state.resolved = true → (s.arpTable i).state.resolved = true) : Inv netif P K L own { s with
            arpTable := Function.update s.arpTable i { s.arpTable i with ctime := (s.arpTable i).ctime + 1, state } } := by
        have hupdate := held_update s i { s.arpTable i with ctime := (s.arpTable i).ctime + 1, state }
        refine h.update ?_ rfl (fun hq ↦ ?_) (fun _ j hj hstate hip ↦ hj (h.table.unique j i hstate hne hip)) (fun _ ↦ ?_)
          (fun hk ↦ h.known i (hres hk)) (h.queue i)
        · rw [add_right_cancel hupdate]
          exact h.nodup
        · exact (h.table.queue i hq).imp_left hstate.mpr
        · simp only [not_or, not_and, BitVec.not_le] at hyoung
          exact ⟨hyoung.1, fun hp ↦ hyoung.2 (hstate.mp hp)⟩
      rw [haged]
      have hspares {tbl : Fin 10 → EtharpEntry} : Spares own s { s with arpTable := tbl } :=
        ⟨⟨_, _, _, _, _, _, _, rfl⟩, fun _ _ ↦ Alike.refl _⟩
      cases hstate : (s.arpTable i).state with
      | empty => exact absurd hstate hne
      | pending =>
        have hnow := hinv .pending (by rw [hstate]) fun hres ↦ Bool.noConfusion hres
        refine wp_bind.mpr (wp_mono (etharpRequest_inv hnow) ?_)
        rintro r s' ⟨hinv', hspares', htbl, hasked⟩
        refine ⟨hinv', hspares.trans hspares', htbl, ?_⟩
        rcases hasked with ⟨-, hframes, -⟩ | ⟨-, hframes⟩
        · exact ⟨[], hframes.trans (List.append_nil _).symm, .inl rfl⟩
        · exact ⟨_, hframes, .inr ⟨rfl, rfl⟩⟩
      | stable =>
        exact ⟨hinv .stable (by rw [hstate]) fun _ ↦ by rw [hstate]; rfl, hspares, rfl, [],
          (List.append_nil _).symm, .inl rfl⟩
      | stableRerequesting1 =>
        simp only [wp_setEntry, Function.update_self, Function.update_idem]
        exact ⟨hinv .stableRerequesting2 (by rw [hstate]; decide) fun _ ↦ by rw [hstate]; rfl, hspares, trivial, [],
          (List.append_nil _).symm, .inl rfl⟩
      | stableRerequesting2 =>
        simp only [wp_setEntry, Function.update_self, Function.update_idem]
        exact ⟨hinv .stable (by rw [hstate]; decide) fun _ ↦ by rw [hstate]; rfl, hspares, trivial, [],
          (List.append_nil _).symm, .inl rfl⟩
  · have hsame : Function.update s.arpTable i (s.arpTable i).aged = s.arpTable := by
      rw [EtharpEntry.aged, if_pos (not_not.mp hempty), Function.update_eq_self]
    rw [hsame]
    exact ⟨h, Spares.refl _ _, rfl, [], (List.append_nil _).symm, .inl rfl⟩

/-- A tick makes every entry a second older, and asks for the pending ones once more. -/
theorem etharpTmr_inv (h : Inv netif P K L own s) :
    wp (etharpTmr netif) (fun _ s' ↦ Inv netif P K L own s' ∧ Spares own s s' ∧
      (s'.arpTable = fun j ↦ (s.arpTable j).aged) ∧ ∃ fs, frames s' = frames s ++ fs ∧
        ∀ f ∈ fs, ∃ j, (s.arpTable j).state = .pending ∧ f = requestFrame netif ethbroadcast (s.arpTable j).ipaddr) s := by
  have hstart : Inv netif P K L own s ∧ Spares own s s ∧
      (s.arpTable = fun j ↦ if j ∈ ([] : List (Fin 10)) then (s.arpTable j).aged else s.arpTable j) ∧
      ∃ fs, frames s = frames s ++ fs ∧
        ∀ f ∈ fs, ∃ j, (s.arpTable j).state = .pending ∧ f = requestFrame netif ethbroadcast (s.arpTable j).ipaddr :=
    ⟨h, Spares.refl _ _, funext fun j ↦ rfl, [], (List.append_nil _).symm, List.forall_mem_nil _⟩
  have hloop := wp_forM (g := etharpTmrEntry netif) (l := List.finRange 10) (I := fun d s' ↦ Inv netif P K L own s' ∧
    Spares own s s' ∧ (s'.arpTable = fun j ↦ if j ∈ d then (s.arpTable j).aged else s.arpTable j) ∧
    ∃ fs, frames s' = frames s ++ fs ∧
      ∀ f ∈ fs, ∃ j, (s.arpTable j).state = .pending ∧ f = requestFrame netif ethbroadcast (s.arpTable j).ipaddr)
    [] hstart ?_
  · refine wp_mono hloop ?_
    rintro - s' ⟨hinv, hspares, htbl, hfs⟩
    refine ⟨hinv, hspares, htbl.trans (funext fun j ↦ ?_), hfs⟩
    exact if_pos (List.mem_finRange j)
  · rintro d i r hd - s₁ ⟨h₁, hspares₁, htbl₁, fs, hframes₁, hfs⟩
    have hi : i ∉ d := by
      have hnodup := List.nodup_finRange 10
      rw [List.nil_append] at hd
      rw [hd] at hnodup
      exact fun hin ↦ (List.nodup_append.mp hnodup).2.2 i hin i List.mem_cons_self rfl
    have hself : s₁.arpTable i = s.arpTable i := by simp only [htbl₁, hi, if_false]
    refine wp_mono (etharpTmrEntry_inv h₁ i) ?_
    rintro - s₂ ⟨h₂, hspares₂, htbl₂, gs, hframes₂, hgs⟩
    rw [hself] at htbl₂ hgs
    refine ⟨h₂, hspares₁.trans hspares₂, funext fun j ↦ ?_, fs ++ gs, ?_, fun f hf ↦ ?_⟩
    · rw [htbl₂]
      by_cases hj : j = i
      · subst hj
        rw [Function.update_self, if_pos (List.mem_append_right _ (List.mem_singleton.mpr rfl))]
      · rw [Function.update_of_ne hj, htbl₁]
        simp only [List.mem_append, List.mem_singleton, hj, or_false]
    · rw [hframes₂, hframes₁, List.append_assoc]
    · rcases List.mem_append.mp hf with hf | hf
      · exact hfs f hf
      · rcases hgs with rfl | ⟨hpending, rfl⟩
        · cases hf
        · exact ⟨i, hpending, List.mem_singleton.mp hf⟩

end Timer

end Enc28j60.Lwip
