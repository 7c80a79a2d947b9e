import Tunlit.Devices.Codes

/-! # A code pairs one device

A device that was created through a code waits to be offered, or it has been offered in
time, and then its token was handed out, or it will be to the next poll. -/
namespace Tunlit.Devices.Pairing
open Tunlit.Lib.Insertion Tunlit.Lib.Runs Tunlit.Devices.Codes

variable {w w' : World} {text : String}

/-! ## The property -/

/-- A row is still waited for, or its code has been authorized in time, and its token has
been handed out, or the code has expired, or a poll hands it out. -/
def Delivered (w : World) (device : Device) : Prop :=
  ⟨device.code, device.token⟩ ∈ w.approvals ∨
  ∃ request time, w.requests.get device.code = some request ∧
    (device.code, time) ∈ w.offered ∧ time ≤ request.expiresAt ∧
    ((∃ handing ∈ w.handed, handing.code = device.code ∧ handing.token = some device.token) ∨
      request.expiresAt < w.now ∨
      (w.poll request.pollToken).2 = .authorized (some device.token))

structure Paired (w : World) : Prop where
  /-- a code leads to one device at most, and a denied code to none -/
  single : (w.devices.map Device.code).Nodup
  denied : ∀ device ∈ w.devices, device.code ∉ w.denied
  /-- a token is handed out once, to the holder of the poll token, behind an approval -/
  once : (w.handed.map Handing.code).Nodup
  holder : ∀ handing ∈ w.handed, (∃ request, w.requests.get handing.code = some request ∧
    request.pollToken = handing.pollToken) ∧ ∃ time, (handing.code, time) ∈ w.offered
  row : ∀ handing ∈ w.handed, ∃ device ∈ w.devices, device.code = handing.code ∧
    handing.token = some device.token
  delivered : ∀ device ∈ w.devices, Delivered w device

/-- An approval begins with no other one of its code waiting, and its row is created before
the code expires; a code is denied only before it is approved. -/
def Careful (w : World) : Event → Prop
  | .approve text _ _ _ => ∀ request ∈ w.sweep.get text, request.status = .pending →
    ∀ approval ∈ w.approvals, approval.code ≠ request.code
  | .resume i => ∀ approval ∈ w.approvals[i]?, w.expired approval.code = false
  | .deny text => ∀ request ∈ w.sweep.get text,
    request.status = .pending ∧ ∀ approval ∈ w.approvals, approval.code ≠ request.code
  | _ => True

instance (w : World) : ∀ e, Decidable (Careful w e)
  | .approve text _ _ _ => inferInstanceAs (Decidable (∀ request ∈ w.sweep.get text, _ → _))
  | .resume i => inferInstanceAs (Decidable (∀ approval ∈ w.approvals[i]?, _))
  | .deny text => inferInstanceAs (Decidable (∀ request ∈ w.sweep.get text, _ ∧ _))
  | .passes _ | .sweep | .createCode .. | .poll _ => .isTrue trivial

/-! ## The invariant -/

inductive Stands (w : World) (device : Device) (request : Request) : Prop
  | waits : request.status = .pending → ⟨device.code, device.token⟩ ∈ w.approvals →
    device.code ∈ w.pending ∨ request.expiresAt < w.now → Stands w device request
  | offered : request.status = .authorized → request.issued = some device.token →
    (∃ time, (device.code, time) ∈ w.offered ∧ time ≤ request.expiresAt) →
    device.code ∈ w.pending ∨
      (∃ handing ∈ w.handed, handing.code = device.code ∧ handing.token = some device.token) ∨
      request.expiresAt < w.now → Stands w device request

structure Inv (w : World) : Prop where
  named : ∀ code request, w.requests.get code = some request → request.code = code
  listed : ∀ code ∈ w.pending, ∃ request, w.requests.get code = some request
  apart : ∀ code code' request request', w.requests.get code = some request →
    w.requests.get code' = some request' → request.pollToken = request'.pollToken → code = code'
  single : (w.devices.map Device.code).Nodup
  device : ∀ device ∈ w.devices, ∃ request, w.requests.get device.code = some request ∧
    Stands w device request
  approval : ∀ approval ∈ w.approvals, ∃ device ∈ w.devices, device.code = approval.code ∧
    device.token = approval.token
  alone : (w.approvals.map Approval.code).Nodup
  authorized : ∀ code request, w.requests.get code = some request → request.status = .authorized →
    ∃ device ∈ w.devices, device.code = code
  denied : ∀ code ∈ w.denied, code ∉ w.pending ∧ (∃ request, w.requests.get code = some request) ∧
    ∀ device ∈ w.devices, device.code ≠ code
  handed : ∀ handing ∈ w.handed, handing.code ∉ w.pending ∧
    (∃ request, w.requests.get handing.code = some request ∧
      request.pollToken = handing.pollToken) ∧
    (∃ time, (handing.code, time) ∈ w.offered) ∧
    ∃ device ∈ w.devices, device.code = handing.code ∧ handing.token = some device.token
  once : (w.handed.map Handing.code).Nodup

theorem expired_iff {code : String} {request : Request} (h : w.requests.get code = some request) :
    w.expired code = true ↔ request.expiresAt < w.now := by
  simp [World.expired, h]

theorem mem_sweep {code : String} :
    code ∈ w.sweep.pending ↔ code ∈ w.pending ∧ w.expired code = false := by
  simp [World.sweep, List.mem_filter]

theorem get_eq_some {request : Request} (h : w.get text = some request) :
    ∃ code ∈ w.pending, w.requests.get code = some request := by
  unfold World.get at h
  dsimp only at h
  split at h
  · next hm => exact ⟨_, hm, h⟩
  · cases h

/-- Time passes, and codes that have expired are dropped. -/
structure Fades (w w' : World) : Prop where
  requests : w'.requests = w.requests
  devices : w'.devices = w.devices
  approvals : w'.approvals = w.approvals
  denied : w'.denied = w.denied
  offered : w'.offered = w.offered
  handed : w'.handed = w.handed
  now : w.now ≤ w'.now
  pending : ∀ code ∈ w'.pending, code ∈ w.pending
  dropped : ∀ code ∈ w.pending, code ∈ w'.pending ∨ w'.expired code = true

theorem Stands.fades {device : Device} {request : Request} (h : Stands w device request)
    (hf : Fades w w') (hr : w.requests.get device.code = some request) :
    Stands w' device request := by
  have hr' : w'.requests.get device.code = some request := hf.requests ▸ hr
  have hkept : device.code ∈ w.pending → device.code ∈ w'.pending ∨ request.expiresAt < w'.now :=
    fun hm => (hf.dropped _ hm).imp_right (expired_iff hr').mp
  cases h with
  | waits hs ha hp =>
    refine .waits hs (hf.approvals ▸ ha) ?_
    exact hp.elim hkept fun hlt => .inr (Nat.lt_of_lt_of_le hlt hf.now)
  | offered hs hi ho hp =>
    refine .offered hs hi (hf.offered ▸ ho) ?_
    rw [hf.handed]
    rcases hp with hp | hp | hp
    · exact (hkept hp).imp_right .inr
    · exact .inr (.inl hp)
    · exact .inr (.inr (Nat.lt_of_lt_of_le hp hf.now))

theorem Inv.fades (h : Inv w) (hf : Fades w w') : Inv w' := by
  refine ⟨?_, fun code hc => ?_, ?_, ?_, fun d hd => ?_, ?_, ?_, ?_, fun code hc => ?_,
    fun handing hh => ?_, ?_⟩
  · rw [hf.requests]
    exact h.named
  · rw [hf.requests]
    exact h.listed code (hf.pending code hc)
  · rw [hf.requests]
    exact h.apart
  · rw [hf.devices]
    exact h.single
  · rw [hf.devices] at hd
    obtain ⟨request, hr, hs⟩ := h.device d hd
    exact ⟨request, hf.requests ▸ hr, hs.fades hf hr⟩
  · rw [hf.approvals, hf.devices]
    exact h.approval
  · rw [hf.approvals]
    exact h.alone
  · rw [hf.requests, hf.devices]
    exact h.authorized
  · rw [hf.denied] at hc
    rw [hf.requests, hf.devices]
    obtain ⟨hp, hrest⟩ := h.denied code hc
    exact ⟨fun hm => hp (hf.pending code hm), hrest⟩
  · rw [hf.handed] at hh
    rw [hf.requests, hf.devices, hf.offered]
    obtain ⟨hp, hrest⟩ := h.handed handing hh
    exact ⟨fun hm => hp (hf.pending _ hm), hrest⟩
  · rw [hf.handed]
    exact h.once

theorem fades_sweep : Fades w w.sweep := by
  refine ⟨rfl, rfl, rfl, rfl, rfl, rfl, Nat.le_refl _, fun code hc => (mem_sweep.mp hc).1,
    fun code hc => ?_⟩
  cases he : w.expired code with
  | true => exact .inr he
  | false => exact .inl (mem_sweep.mpr ⟨hc, he⟩)

theorem fades_passes (time : Nat) : Fades w { w with now := w.now + time } :=
  ⟨rfl, rfl, rfl, rfl, rfl, rfl, Nat.le_add_right .., fun _ hc => hc, fun _ hc => .inl hc⟩

/-! ## Steps -/

/-- How a device stands is as before where its code is still pending. -/
theorem Stands.mono {device : Device} {request : Request} (h : Stands w device request)
    (ha : ⟨device.code, device.token⟩ ∈ w.approvals → ⟨device.code, device.token⟩ ∈ w'.approvals)
    (ho : w.offered ⊆ w'.offered) (hh : w.handed ⊆ w'.handed) (hn : w'.now = w.now)
    (hp : device.code ∈ w.pending → device.code ∈ w'.pending) : Stands w' device request := by
  cases h with
  | waits hs hw hpend => exact .waits hs (ha hw) (hn ▸ hpend.imp_left hp)
  | offered hs hi hoff hpend =>
    obtain ⟨time, hm, hle⟩ := hoff
    refine .offered hs hi ⟨time, ho hm, hle⟩ ?_
    rw [hn]
    exact hpend.imp hp (Or.imp_left fun ⟨handing, hm, hc⟩ => ⟨handing, hh hm, hc⟩)

/-- A request is added under a code that is new. -/
theorem Inv.add {code : String} {request : Request} (h : Inv w)
    (hnew : w.requests.get code = none)
    (htoken : ∀ code other, w.requests.get code = some other → other.pollToken ≠ request.pollToken)
    (hcode : request.code = code) (hstatus : request.status = .pending) :
    Inv { w with requests := w.requests.set code request, pending := w.pending ++ [code] } := by
  have hne : ∀ other found, w.requests.get other = some found → other ≠ code := by
    rintro other found hr rfl
    rw [hnew] at hr
    cases hr
  have hkept : ∀ other found, w.requests.get other = some found →
      (w.requests.set code request).get other = some found := by
    intro other found hr
    rw [OrderedMap.get_set, if_neg (hne other found hr).symm, hr]
  have hback : ∀ other found, (w.requests.set code request).get other = some found →
      other = code ∧ found = request ∨ w.requests.get other = some found := by
    intro other found hr
    rw [OrderedMap.get_set] at hr
    split at hr
    · next he => exact .inl ⟨he.symm, (Option.some.inj hr).symm⟩
    · exact .inr hr
  refine ⟨fun other found hr => ?_, fun other hc => ?_, fun other other' found found' hr hr' ht =>
      ?_,
    h.single, fun d hd => ?_, h.approval, h.alone, fun other found hr hs => ?_, fun other hc => ?_,
    fun handing hh => ?_, h.once⟩
  · rcases hback other found hr with ⟨rfl, rfl⟩ | hr
    · exact hcode
    · exact h.named other found hr
  · rcases List.mem_append.mp hc with hc | hc
    · obtain ⟨found, hr⟩ := h.listed other hc
      exact ⟨found, hkept other found hr⟩
    · exact ⟨request, by rw [List.mem_singleton.mp hc, OrderedMap.get_set_self]⟩
  · rcases hback other found hr with ⟨he, rfl⟩ | hold
    · rcases hback other' found' hr' with ⟨he', rfl⟩ | hold'
      · exact he.trans he'.symm
      · exact absurd ht.symm (htoken other' found' hold')
    · rcases hback other' found' hr' with ⟨he', rfl⟩ | hold'
      · exact absurd ht (htoken other found hold)
      · exact h.apart other other' found found' hold hold' ht
  · obtain ⟨found, hr, hs⟩ := h.device d hd
    exact ⟨found, hkept _ _ hr, hs.mono id (List.Subset.refl _) (List.Subset.refl _) rfl
      (List.mem_append_left _)⟩
  · rcases hback other found hr with ⟨rfl, rfl⟩ | hr
    · rw [hstatus] at hs
      cases hs
    · exact h.authorized other found hr hs
  · obtain ⟨hp, ⟨found, hr⟩, hd⟩ := h.denied other hc
    refine ⟨fun hm => ?_, ⟨found, hkept other found hr⟩, hd⟩
    rcases List.mem_append.mp hm with hm | hm
    · exact hp hm
    · exact hne other found hr (List.mem_singleton.mp hm)
  · obtain ⟨hp, ⟨found, hr, ht⟩, hrest⟩ := h.handed handing hh
    refine ⟨fun hm => ?_, ⟨found, hkept _ _ hr, ht⟩, hrest⟩
    rcases List.mem_append.mp hm with hm | hm
    · exact hp hm
    · exact hne _ found hr (List.mem_singleton.mp hm)

theorem Inv.createCode {bytes : List UInt8} {pollToken client ip userAgent : String} (h : Inv w)
    (hnew : w.isNew bytes pollToken = true) :
    Inv (w.createCode bytes pollToken client ip userAgent).1 := by
  rw [World.isNew, Bool.and_eq_true, Option.isNone_iff_eq_none, List.all_eq_true] at hnew
  obtain ⟨hcode, htoken⟩ := hnew
  exact (h.fades fades_sweep).add hcode
    (fun code other hr => of_decide_eq_true (htoken _ (OrderedMap.mem_entries.mpr hr))) rfl rfl

/-- A code that is not approved leads to no device. -/
theorem Inv.no_device {code : String} {request : Request} (h : Inv w)
    (hr : w.requests.get code = some request) (hs : request.status = .pending)
    (ha : ∀ approval ∈ w.approvals, approval.code ≠ code) : ∀ d ∈ w.devices, d.code ≠ code := by
  intro d hd he
  obtain ⟨found, hfound, hstands⟩ := h.device d hd
  rw [he, hr] at hfound
  cases hfound
  cases hstands with
  | waits _ hw _ => exact ha _ hw he
  | offered hstatus _ _ _ =>
    rw [hs] at hstatus
    cases hstatus

/-- A row is created through a pending code that leads to none. -/
theorem Inv.enrol {device : Device} {request : Request} (h : Inv w)
    (hr : w.requests.get device.code = some request) (hs : request.status = .pending)
    (hp : device.code ∈ w.pending) (ha : ∀ approval ∈ w.approvals, approval.code ≠ device.code) :
    Inv { w with
      devices := w.devices ++ [device]
      approvals := w.approvals ++ [⟨device.code, device.token⟩] } := by
  have hnone := h.no_device hr hs ha
  refine ⟨h.named, h.listed, h.apart, ?_, fun d hd => ?_, fun approval hm => ?_, ?_,
    fun code found hf hstatus => ?_, fun code hc => ?_, fun handing hh => ?_, h.once⟩
  · rw [List.map_append]
    refine List.nodup_append.mpr ⟨h.single, List.nodup_singleton _, ?_⟩
    rintro _ hm _ hm' rfl
    obtain ⟨d, hd, he⟩ := List.mem_map.mp hm
    exact hnone d hd (he.trans (List.mem_singleton.mp hm'))
  · rcases List.mem_append.mp hd with hd | hd
    · obtain ⟨found, hfound, hstands⟩ := h.device d hd
      exact ⟨found, hfound, hstands.mono (List.mem_append_left _) (List.Subset.refl _)
        (List.Subset.refl _) rfl id⟩
    · obtain rfl := List.mem_singleton.mp hd
      exact ⟨request, hr, .waits hs (List.mem_append_right _ (List.mem_singleton_self _)) (.inl hp)⟩
  · rcases List.mem_append.mp hm with hm | hm
    · obtain ⟨d, hd, hrest⟩ := h.approval approval hm
      exact ⟨d, List.mem_append_left _ hd, hrest⟩
    · obtain rfl := List.mem_singleton.mp hm
      exact ⟨device, List.mem_append_right _ (List.mem_singleton_self _), rfl, rfl⟩
  · rw [List.map_append]
    refine List.nodup_append.mpr ⟨h.alone, List.nodup_singleton _, ?_⟩
    rintro _ hm _ hm' rfl
    obtain ⟨approval, hin, he⟩ := List.mem_map.mp hm
    exact ha approval hin (he.trans (List.mem_singleton.mp hm'))
  · obtain ⟨d, hd, he⟩ := h.authorized code found hf hstatus
    exact ⟨d, List.mem_append_left _ hd, he⟩
  · obtain ⟨hnot, hknown, hd⟩ := h.denied code hc
    refine ⟨hnot, hknown, fun d hm => ?_⟩
    rcases List.mem_append.mp hm with hm | hm
    · exact hd d hm
    · rw [List.mem_singleton.mp hm]
      exact fun he => hnot (he ▸ hp)
  · obtain ⟨hnot, htoken, hoff, d, hd, hrest⟩ := h.handed handing hh
    exact ⟨hnot, htoken, hoff, d, List.mem_append_left _ hd, hrest⟩

theorem Inv.approve {name token : String} {accountId : Nat} (h : Inv w)
    (hok : Careful w (.approve text name accountId token)) :
    Inv (w.approve text name accountId token).1 := by
  have hv := h.fades fades_sweep
  unfold World.approve
  dsimp only
  split
  · exact hv
  · next request hg =>
    split
    · exact hv
    · next hs =>
      have hs : request.status = .pending := of_not_not hs
      obtain ⟨code, hp, hr⟩ := get_eq_some hg
      obtain rfl := hv.named code request hr
      exact hv.enrol hr hs hp (hok request hg hs)

theorem Inv.deny (h : Inv w) (hok : Careful w (.deny text)) : Inv (w.deny text).1 := by
  have hv := h.fades fades_sweep
  unfold World.deny
  dsimp only
  split
  · exact hv
  · next request hg =>
    obtain ⟨code, hp, hr⟩ := get_eq_some hg
    obtain rfl := hv.named code request hr
    obtain ⟨hs, ha⟩ := hok request hg
    have hnone := hv.no_device hr hs ha
    have hfew : ∀ code, code ∈ w.sweep.pending.filter (· ≠ request.code) →
        code ∈ w.sweep.pending := fun code hm => (List.mem_filter.mp hm).1
    refine ⟨hv.named, fun code hc => hv.listed code (hfew code hc), hv.apart, hv.single,
      fun d hd => ?_, hv.approval, hv.alone, hv.authorized, fun code hc => ?_, fun handing hh => ?_,
      hv.once⟩
    · obtain ⟨found, hfound, hstands⟩ := hv.device d hd
      exact ⟨found, hfound, hstands.mono id (List.Subset.refl _) (List.Subset.refl _) rfl fun hm =>
        List.mem_filter.mpr ⟨hm, decide_eq_true (hnone d hd)⟩⟩
    · rcases List.mem_append.mp hc with hc | hc
      · obtain ⟨hnot, hrest⟩ := hv.denied code hc
        exact ⟨fun hm => hnot (hfew code hm), hrest⟩
      · obtain rfl := List.mem_singleton.mp hc
        exact ⟨by simp, ⟨request, hr⟩, hnone⟩
    · obtain ⟨hnot, hrest⟩ := hv.handed handing hh
      exact ⟨fun hm => hnot (hfew _ hm), hrest⟩

theorem polled_eq_some {pollToken : String} {request : Request}
    (h : w.polled pollToken = some request) : request.pollToken = pollToken ∧
    ∃ code ∈ w.pending, w.requests.get code = some request := by
  refine ⟨by simpa using List.find?_some h, ?_⟩
  obtain ⟨code, hm, hr⟩ := List.mem_filterMap.mp (List.mem_of_find?_eq_some h)
  exact ⟨code, hm, hr⟩

theorem Inv.poll {pollToken : String} (h : Inv w) : Inv (w.poll pollToken).1 := by
  have hv := h.fades fades_sweep
  unfold World.poll
  dsimp only
  split
  · exact hv
  · next request hpolled =>
    split
    · exact hv
    · next hs =>
      have hs : request.status = .authorized := of_not_not hs
      obtain ⟨htoken, code, hp, hr⟩ := polled_eq_some hpolled
      obtain rfl := hv.named code request hr
      have hfew : ∀ code, code ∈ w.sweep.pending.filter (· ≠ request.code) →
          code ∈ w.sweep.pending := fun code hm => (List.mem_filter.mp hm).1
      refine ⟨hv.named, fun code hc => hv.listed code (hfew code hc), hv.apart, hv.single,
        fun d hd => ?_, hv.approval, hv.alone, hv.authorized, fun code hc => ?_,
        fun handing hh => ?_, ?_⟩
      · obtain ⟨found, hfound, hstands⟩ := hv.device d hd
        refine ⟨found, hfound, ?_⟩
        by_cases he : d.code = request.code
        · rw [he, hr] at hfound
          cases hfound
          cases hstands with
          | waits hpending _ _ =>
            rw [hs] at hpending
            cases hpending
          | offered _ hi hoff _ =>
            refine .offered hs hi hoff (.inr (.inl ⟨⟨request.code, pollToken, request.issued⟩, ?_,
              he.symm, hi⟩))
            exact List.mem_append_right _ (List.mem_singleton_self _)
        · exact hstands.mono id (List.Subset.refl _) (List.subset_append_left _ _) rfl fun hm =>
            List.mem_filter.mpr ⟨hm, decide_eq_true he⟩
      · obtain ⟨hnot, hrest⟩ := hv.denied code hc
        exact ⟨fun hm => hnot (hfew code hm), hrest⟩
      · rcases List.mem_append.mp hh with hh | hh
        · obtain ⟨hnot, hrest⟩ := hv.handed handing hh
          exact ⟨fun hm => hnot (hfew _ hm), hrest⟩
        · obtain rfl := List.mem_singleton.mp hh
          obtain ⟨d, hd, he⟩ := hv.authorized _ request hr hs
          obtain ⟨found, hfound, hstands⟩ := hv.device d hd
          rw [he, hr] at hfound
          cases hfound
          cases hstands with
          | waits hpending _ _ =>
            rw [hs] at hpending
            cases hpending
          | offered _ hi hoff _ =>
            obtain ⟨time, hm, -⟩ := hoff
            exact ⟨by simp, ⟨request, hr, htoken⟩, ⟨time, he ▸ hm⟩, d, hd, he, hi⟩
      · rw [List.map_append]
        refine List.nodup_append.mpr ⟨hv.once, List.nodup_singleton _, ?_⟩
        rintro _ hm _ hm' rfl
        obtain ⟨handing, hh, he⟩ := List.mem_map.mp hm
        obtain rfl := List.mem_singleton.mp hm'
        exact (hv.handed handing hh).1 (he ▸ hp)

/-- An approval whose row has been created authorizes its code, which has not expired. -/
theorem Inv.resume {i : Nat} {approval : Approval} (h : Inv w)
    (ha : w.approvals[i]? = some approval) (hok : w.expired approval.code = false) :
    Inv (World.authorize { w with approvals := w.approvals.eraseIdx i } approval) := by
  obtain ⟨device, hd, hcode, htoken⟩ := h.approval approval (List.mem_of_getElem? ha)
  obtain ⟨request, hr, hstands⟩ := h.device device hd
  rw [hcode] at hr
  have hintime : w.now ≤ request.expiresAt := by
    refine Nat.le_of_not_lt fun hlt => ?_
    rw [(expired_iff hr).mpr hlt] at hok
    cases hok
  have hget : ∀ code, (w.requests.set approval.code
      { request with status := .authorized, issued := some approval.token }).get code =
      if code = approval.code then
        some { request with status := .authorized, issued := some approval.token }
      else w.requests.get code := by
    intro code
    rw [OrderedMap.get_set]
    exact if_congr eq_comm rfl rfl
  have hkept : ∀ a ∈ w.approvals, a.code ≠ approval.code → a ∈ w.approvals.eraseIdx i := by
    intro a hm hne
    obtain ⟨k, hk⟩ := List.mem_iff_getElem?.mp hm
    refine List.mem_eraseIdx_iff_getElem?.mpr ⟨k, fun hki => ?_, hk⟩
    rw [hki, ha] at hk
    exact hne (congrArg Approval.code (Option.some.inj hk).symm)
  have hfew : ∀ a, a ∈ w.approvals.eraseIdx i → a ∈ w.approvals :=
    fun a hm => List.mem_of_mem_eraseIdx hm
  have hold : ∀ code found, (w.requests.set approval.code
      { request with status := .authorized, issued := some approval.token }).get code = some found →
      ∃ old, w.requests.get code = some old ∧ old.pollToken = found.pollToken := by
    intro code found hf
    rw [hget] at hf
    split at hf
    · next he =>
      cases hf
      exact ⟨request, he ▸ hr, rfl⟩
    · exact ⟨found, hf, rfl⟩
  rw [World.authorize, hr]
  refine ⟨fun code found hf => ?_, fun code hc => ?_, fun code code' found found' hf hf' ht => ?_,
    h.single, fun d hm => ?_, fun a hm => h.approval a (hfew a hm), ?_, fun code found hf hs => ?_,
    fun code hc => ?_, fun handing hh => ?_, h.once⟩
  · rw [hget] at hf
    split at hf
    · next he =>
      cases hf
      exact (h.named _ request hr).trans he.symm
    · exact h.named code found hf
  · rw [hget]
    split
    · exact ⟨_, rfl⟩
    · exact h.listed code hc
  · obtain ⟨old, ho, hto⟩ := hold code found hf
    obtain ⟨old', ho', hto'⟩ := hold code' found' hf'
    exact h.apart code code' old old' ho ho' (hto.trans (ht.trans hto'.symm))
  · obtain ⟨found, hf, hs⟩ := h.device d hm
    rw [hget]
    split
    · next he =>
      obtain rfl := List.inj_on_of_nodup_map h.single hm hd (he.trans hcode.symm)
      refine ⟨_, rfl, .offered rfl (congrArg some htoken.symm) ⟨w.now, ?_, hintime⟩ ?_⟩
      · exact List.mem_append_right _ (by rw [he]; exact List.mem_singleton_self _)
      · cases hstands with
        | waits _ _ hp => exact hp.imp_right .inr
        | offered _ _ _ hp => exact hp
    · next hne =>
      refine ⟨found, hf, hs.mono (fun ha => hkept _ ha hne) (List.subset_append_left _ _)
        (List.Subset.refl _) rfl id⟩
  · exact h.alone.sublist ((List.eraseIdx_sublist _ _).map _)
  · rw [hget] at hf
    split at hf
    · next he => exact ⟨device, hd, hcode.trans he.symm⟩
    · exact h.authorized code found hf hs
  · obtain ⟨hnot, ⟨found, hf⟩, hnone⟩ := h.denied code hc
    refine ⟨hnot, ?_, hnone⟩
    rw [hget]
    split
    · exact ⟨_, rfl⟩
    · exact ⟨found, hf⟩
  · obtain ⟨hnot, ⟨found, hf, ht⟩, ⟨time, hoff⟩, hrest⟩ := h.handed handing hh
    refine ⟨hnot, ?_, ⟨time, List.mem_append_left _ hoff⟩, hrest⟩
    rw [hget]
    split
    · next he =>
      rw [he, hr] at hf
      cases hf
      exact ⟨_, rfl, ht⟩
    · exact ⟨found, hf, ht⟩

theorem Inv.step {e : Event} (h : Inv w) (hok : Careful w e) (hs : step w e = some w') :
    Inv w' := by
  cases e with
  | passes time =>
    cases hs
    exact h.fades (fades_passes time)
  | sweep =>
    cases hs
    exact h.fades fades_sweep
  | createCode bytes pollToken client ip userAgent =>
    rw [Codes.step] at hs
    split at hs
    · next hnew =>
      cases hs
      exact h.createCode hnew
    · cases hs
  | approve text name accountId token =>
    rw [Codes.step] at hs
    split at hs
    · cases hs
      exact h.approve hok
    · cases hs
  | resume i =>
    obtain ⟨approval, ha, rfl⟩ := Option.map_eq_some_iff.mp hs
    exact h.resume ha (hok approval ha)
  | deny text =>
    cases hs
    exact h.deny hok
  | poll pollToken =>
    cases hs
    exact h.poll

theorem Inv.of_reaches (h : machine.Reaches Careful w) : Inv w := by
  refine h.invariant (fun w h0 => ?_) fun w w' e hi hok hs => hi.step hok hs
  subst h0
  exact ⟨nofun, nofun, nofun, List.nodup_nil, nofun, nofun, List.nodup_nil, nofun, nofun, nofun,
    List.nodup_nil⟩

/-! ## Pairing -/

/-- A poll of an authorized code that is pending hands its token out. -/
theorem Inv.poll_eq {code : String} {request : Request} (h : Inv w)
    (hr : w.requests.get code = some request) (hp : code ∈ w.pending)
    (hlive : ¬request.expiresAt < w.now) (hs : request.status = .authorized) :
    (w.poll request.pollToken).2 = .authorized request.issued := by
  have hin : code ∈ w.sweep.pending := by
    refine mem_sweep.mpr ⟨hp, ?_⟩
    rw [← Bool.not_eq_true, expired_iff hr]
    exact hlive
  have hpolled : w.sweep.polled request.pollToken = some request := by
    cases hfind : w.sweep.polled request.pollToken with
    | none =>
      have := List.find?_eq_none.mp hfind request (List.mem_filterMap.mpr ⟨code, hin, hr⟩)
      exact absurd (decide_eq_true rfl) this
    | some found =>
      obtain ⟨htoken, code', -, hr'⟩ := polled_eq_some hfind
      obtain rfl := h.apart code code' request found hr hr' htoken.symm
      rw [← hr', ← hr]
      rfl
  simp only [World.poll, hpolled, hs, ne_eq, not_true, if_false]

theorem Inv.delivered (h : Inv w) {device : Device} (hd : device ∈ w.devices) :
    Delivered w device := by
  obtain ⟨request, hr, hs⟩ := h.device device hd
  cases hs with
  | waits _ ha _ => exact .inl ha
  | offered hs hi hoff hp =>
    obtain ⟨time, hm, hle⟩ := hoff
    refine .inr ⟨request, time, hr, hm, hle, ?_⟩
    rcases hp with hp | hp | hp
    · by_cases hlive : request.expiresAt < w.now
      · exact .inr (.inl hlive)
      · exact .inr (.inr (hi ▸ h.poll_eq hr hp hlive hs))
    · exact .inl hp
    · exact .inr (.inl hp)

/-- When approvals and denials are careful, every code pairs one device. -/
theorem paired_of_careful (w : World) (h : machine.Reaches Careful w) : Paired w := by
  have hinv := Inv.of_reaches h
  exact
    { single := hinv.single
      denied := fun device hd hm => (hinv.denied _ hm).2.2 device hd rfl
      once := hinv.once
      holder := fun handing hh => ⟨(hinv.handed handing hh).2.1, (hinv.handed handing hh).2.2.1⟩
      row := fun handing hh => (hinv.handed handing hh).2.2.2
      delivered := fun device hd => hinv.delivered hd }

/-- A code of eight letters. -/
def asked : Event := .createCode (List.replicate 8 0) "poll" "cli" "" ""

/-- A code is approved, and its token is handed out. -/
theorem paired_handed : ∃ w, Paired w ∧
    w.handed = [⟨"AAAA-AAAA", "poll", some "device"⟩] := by
  let es : List Event :=
    [asked, .approve " aaaa-aaaa" "" 1 "device", .poll "poll", .resume 0, .poll "poll"]
  have hrun : (machine.exec {} es).any (fun w => decide
      (w.handed = [⟨"AAAA-AAAA", "poll", some "device"⟩] ∧ machine.Allowed Careful {} es)) = true := by
    decide
  obtain ⟨w, hexec, hp⟩ := (Option.any_eq_true _ _).mp hrun
  obtain ⟨hhanded, hallowed⟩ := of_decide_eq_true hp
  exact ⟨w, paired_of_careful w ((Machine.Reaches.init rfl).exec es hallowed hexec), hhanded⟩

/-- Two accounts approve a code before the first row is created. -/
theorem not_always_paired : ¬ ∀ w, machine.Reachable w → Paired w := by
  intro h
  have hrun : (machine.exec {}
      [asked, .approve "AAAA-AAAA" "" 1 "a", .approve "AAAA-AAAA" "" 2 "b"]).any (fun w =>
        !decide (w.devices.map Device.code).Nodup) = true := by
    decide
  obtain ⟨w, hexec, hp⟩ := (Option.any_eq_true _ _).mp hrun
  have hsingle := (h w ((Machine.Reachable.init rfl).exec _ hexec)).single
  simp [hsingle] at hp

end Tunlit.Devices.Pairing
