import RadioCat.Signal.Settings

/-!
This module contains that a source whose writes store what they are given publishes the last
accepted values, for as long as the values written are inside its own bounds.
-/

namespace Signal

namespace Source

variable {σ ε : Type} {source : Source σ ε} {Held : String → Payload → Prop}

def published (source : Source σ ε) (s : σ) (key : String) : Option SettingValue :=
  match SpectrumSettings.find (source.settings s) key with
  | some descriptor => if descriptor.access = .readWrite then some descriptor.value else none
  | none => none

structure Stores (source : Source σ ε) (Held : String → Payload → Prop) : Prop where
  write : ∀ s key setting value, source.published s key = some setting →
    setting.admits value.payload → Held key value.payload →
      ∃ s', source.write key value s = some (some s') ∧
        ∀ k, source.published s' k =
          if k = key then some (setting.withPayload value.payload) else source.published s k
  elapse : ∀ event s key, source.published (source.elapse event s) key = source.published s key

theorem published_of_find {s : σ} {key : String} {descriptor : SettingDescriptor}
    (h : SpectrumSettings.find (source.settings s) key = some descriptor)
    (haccess : descriptor.access = .readWrite)
    : source.published s key = some descriptor.value := by
  simp [published, h, haccess]

theorem key_of_find {settings : SpectrumSettings} {key : String} {descriptor : SettingDescriptor}
    (h : SpectrumSettings.find settings key = some descriptor) : descriptor.key = key := by
  simpa using List.find?_some h

/-- What one call does: it is refused and changes nothing, or it is accepted and only the setting
it names is published with another value. -/
inductive Applied (source : Source σ ε) (s : σ) (key : String) (value : SettingValue)
    : Except SettingError Unit × σ → Prop where
  | refused (error : SettingError) : Applied source s key value (.error error, s)
  | accepted (descriptor : SettingDescriptor) (s' : σ)
      (find : SpectrumSettings.find (source.settings s) key = some descriptor)
      (access : descriptor.access = .readWrite) (kind : descriptor.value.sameKindAs value)
      (admits : descriptor.value.admits value.payload)
      (published : ∀ k, source.published s' k =
        if k = key then some (descriptor.value.withPayload value.payload)
        else source.published s k)
      : Applied source s key value (.ok (), s')

theorem Stores.exists_apply (h : source.Stores Held) {s : σ} {key : String} {value : SettingValue}
    (hmeets : source.Meets Held s key value)
    : ∃ outcome, source.apply key value s = some outcome ∧ Applied source s key value outcome := by
  unfold apply
  cases hfind : SpectrumSettings.find (source.settings s) key with
  | none => exact ⟨_, rfl, .refused _⟩
  | some descriptor =>
    by_cases haccess : descriptor.access = .readOnly
    . exact ⟨_, if_pos haccess, .refused _⟩
    have hwritable : descriptor.access = .readWrite := by
      cases h : descriptor.access with
      | readOnly => exact absurd h haccess
      | readWrite => rfl
    by_cases hkind : descriptor.value.sameKindAs value = false
    . exact ⟨_, by simp only [if_neg haccess, if_pos hkind], .refused (.wrongKind descriptor.key)⟩
    by_cases hvalid : value.isValid = false
    . exact ⟨_, by simp only [if_neg haccess, if_neg hkind, if_pos hvalid],
        .refused (.outOfRange descriptor.key)⟩
    rw [Bool.not_eq_false] at hkind hvalid
    obtain ⟨hadmits, hheld⟩ := hmeets descriptor hfind hwritable hkind hvalid
    obtain ⟨s', hwrite, hpublished⟩ := h.write s key descriptor.value value
      (published_of_find hfind hwritable) hadmits hheld
    refine ⟨(.ok (), s'), ?_, .accepted descriptor s' hfind hwritable hkind hadmits hpublished⟩
    simp [haccess, hkind, hvalid, key_of_find hfind, hwrite]

/-- The accepted values that the writable settings are published with. -/
def Publishes (source : Source σ ε) (s : σ) (last : String → Option SettingValue) : Prop :=
  ∀ key value, last key = some value →
    ∃ setting, source.published s key = some setting ∧ setting.payload = value.payload ∧
      setting.isValid

theorem Applied.publishes {s s' : σ} {key : String} {value : SettingValue}
    {result : Except SettingError Unit} {last : String → Option SettingValue}
    (h : Applied source s key value (result, s')) (hlast : source.Publishes s last)
    : source.Publishes s' fun k =>
        (if key = k ∧ result.isOk then some value else none).or (last k) := by
  intro k v hv
  simp only at hv
  cases h with
  | refused error =>
    have hnot : ¬ (key = k ∧ (Except.error error : Except SettingError Unit).isOk = true) :=
      fun h => Bool.false_ne_true h.2
    rw [if_neg hnot, Option.none_or] at hv
    exact hlast k v hv
  | accepted descriptor _ find access kind admits published =>
    rw [published k]
    by_cases hk : k = key
    . rw [if_pos ⟨hk.symm, rfl⟩, Option.some_or, Option.some.injEq] at hv
      subst hv
      rw [if_pos hk]
      exact ⟨_, rfl, SettingValue.payload_withPayload admits,
        SettingValue.isValid_withPayload admits⟩
    . rw [if_neg (fun h => hk h.1.symm), Option.none_or] at hv
      rw [if_neg hk]
      exact hlast k v hv

theorem Stores.exists_run (h : source.Stores Held) {s : σ} {events : List (Event ε)}
    {last : String → Option SettingValue} (hlast : source.Publishes s last)
    (hmeet : source.AllMeet Held s events)
    : ∃ calls final, source.run s events = some (calls, final) ∧
        (∀ call ∈ calls, call.result.isOk →
          ∃ descriptor,
            SpectrumSettings.find (source.settings call.before) call.key = some descriptor ∧
            descriptor.access = .readWrite ∧ descriptor.value.sameKindAs call.value ∧
            descriptor.value.admits call.value.payload) ∧
        source.Publishes final fun key => (lastAccepted calls key).or (last key) := by
  induction events generalizing s last with
  | nil => exact ⟨[], s, rfl, by simp, by simpa [lastAccepted] using hlast⟩
  | cons event events ih =>
    cases event with
    | apply key value =>
      obtain ⟨hmeets, hrest⟩ := hmeet
      obtain ⟨⟨result, s'⟩, happly, happlied⟩ := h.exists_apply hmeets
      obtain ⟨calls, final, hrun, hcalls, hpublishes⟩ :=
        ih (happlied.publishes hlast) (hrest result s' happly)
      refine ⟨{ before := s, key, value, result } :: calls, final, ?_, ?_, ?_⟩
      . simp [run, happly, hrun]
      . intro call hcall hok
        rcases List.mem_cons.mp hcall with rfl | hcall
        . cases happlied with
          | refused error => exact absurd hok Bool.false_ne_true
          | accepted descriptor _ find access kind admits published =>
            exact ⟨descriptor, find, access, kind, admits⟩
        . exact hcalls call hcall hok
      . simpa only [lastAccepted, Option.or_assoc] using hpublishes
    | elapse event =>
      have hlast' : source.Publishes (source.elapse event s) last := by
        intro key value hvalue
        rw [h.elapse]
        exact hlast key value hvalue
      exact ih hlast' hmeet

theorem Stores.respected (h : source.Stores Held) {start : σ} {events : List (Event ε)}
    (hmeet : source.AllMeet Held start events) : source.Respected start events := by
  have hnone : source.Publishes start fun _ => none := by
    intro key value hvalue
    cases hvalue
  obtain ⟨calls, final, hrun, hcalls, hpublishes⟩ := h.exists_run hnone hmeet
  refine ⟨calls, final, hrun, hcalls, ?_⟩
  intro key descriptor hfind haccess value hvalue
  obtain ⟨setting, hpublished, hpayload, hvalid⟩ := hpublishes key value (by simp [hvalue])
  rw [published_of_find hfind haccess, Option.some.injEq] at hpublished
  subst hpublished
  exact ⟨hpayload, hvalid⟩

end Source

end Signal
