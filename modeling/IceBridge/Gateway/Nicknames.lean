import IceBridge.Gateway.LoginWorker
import IceBridge.Lib.Inverse

/-! The names of the players: the hash `nickname` has the player of each name, and `user#` the name
of each player. `set_user_name` writes both and takes nothing out. -/

namespace IceBridge.Gateway

namespace Registry

/-- A name leads to a player exactly when it is the name that he has. -/
def Inverse (r : Registry) : Prop := Table.Inverse r.userName r.nickname

end Registry

namespace LoginWorker
variable {s t : LoginWorker} {name : String}

def nameStep (s : LoginWorker) (e : UInt32 × String) : Option LoginWorker :=
  ({ s with playerUuid := e.1 }.setUserName e.2).map Prod.snd

def FirstName (s : LoginWorker) (e : UInt32 × String) : Prop :=
  checkString e.2 = true → s.registry.nickname e.2 = none → s.registry.userName e.1 = none

theorem setUserName_cases {set : Bool} (ht : s.setUserName name = some (set, t)) :
    (t = s ∧ (checkString name = true → s.registry.nickname name ≠ none)) ∨
      (checkString name = true ∧ s.registry.nickname name = none ∧
        t.registry.nickname = Function.update s.registry.nickname name (some s.playerUuid) ∧
        t.registry.userName = Function.update s.registry.userName s.playerUuid (some name)) := by
  unfold setUserName at ht
  split_ifs at ht with hinvalid hformat htaken hfits
  · obtain ⟨-, rfl⟩ := Prod.mk.inj (Option.some.inj ht)
    refine .inl ⟨rfl, fun hvalid => ?_⟩
    rw [hvalid] at hinvalid
    exact absurd hinvalid (by decide)
  · obtain ⟨-, rfl⟩ := Prod.mk.inj (Option.some.inj ht)
    exact .inl ⟨rfl, fun _ hnone => by simp [hnone] at htaken⟩
  · obtain ⟨-, rfl⟩ := Prod.mk.inj (Option.some.inj ht)
    refine .inr ⟨by simpa using hinvalid, by simpa using htaken, rfl, rfl⟩

theorem inverse_nameStep_iff {e : UInt32 × String} (hs : s.registry.Inverse)
    (ht : s.nameStep e = some t) : t.registry.Inverse ↔ s.FirstName e := by
  obtain ⟨⟨set, t'⟩, hset, rfl⟩ := Option.map_eq_some_iff.mp ht
  rcases setUserName_cases hset with ⟨rfl, htaken⟩ | ⟨hvalid, hfree, hnickname, huserName⟩
  · exact iff_of_true hs fun hvalid hnone => absurd hnone (htaken hvalid)
  · have hfirst : s.FirstName e ↔ s.registry.userName e.1 = none :=
      ⟨fun h => h hvalid hfree, fun h _ _ => h⟩
    rw [hfirst, Registry.Inverse, hnickname, huserName]
    exact Table.Inverse.update_iff hs hfree

/-- Along a run of `set_user_name` the two records stay inverse exactly when nobody is given a name
who has one already: the name before still leads to him. -/
theorem named_run_iff (hs : s.registry.Inverse) (es : List (UInt32 × String)) :
    Run.Always nameStep (fun s => s.registry.Inverse) s es ↔ Run.EachStep nameStep FirstName s es :=
  Run.always_iff_eachStep (I := fun _ => True) (fun _ _ _ _ _ => trivial)
    (fun _ _ _ _ hs ht => inverse_nameStep_iff hs ht) trivial hs es

theorem inverse_empty : ({} : LoginWorker).registry.Inverse := fun _ _ => by simp

theorem named_run_two_players :
    Run.Always nameStep (fun s => s.registry.Inverse) {} [(7, "Ann"), (8, "Ann"), (8, "Bob")] ↔
      Run.EachStep nameStep FirstName {} [(7, "Ann"), (8, "Ann"), (8, "Bob")] :=
  named_run_iff inverse_empty [(7, "Ann"), (8, "Ann"), (8, "Bob")]

/-- The player 7 is still found under the name he had at first. -/
theorem not_named_renamed : ¬ ∀ es : List (UInt32 × String),
    Run.Always nameStep (fun s => s.registry.Inverse) {} es := by
  intro h
  obtain ⟨t, ht⟩ : ∃ t, Run.exec nameStep {} [(7, "Ann"), (7, "Bob")] = some t := ⟨_, rfl⟩
  have hend := (Run.always_iff_prefixes _ _).mp (h [(7, "Ann"), (7, "Bob")]) _ List.prefix_rfl t ht
  have hold : (Run.exec nameStep {} [(7, "Ann"), (7, "Bob")]).map (fun t =>
      (t.registry.nickname "Ann", t.registry.userName 7)) = some (some 7, some "Bob") := by
    decide +kernel
  rw [ht] at hold
  obtain ⟨hnickname, huserName⟩ := Prod.mk.inj (Option.some.inj hold)
  rw [(hend 7 "Ann").mpr hnickname] at huserName
  exact absurd (Option.some.inj huserName) (by decide)

end LoginWorker

end IceBridge.Gateway
