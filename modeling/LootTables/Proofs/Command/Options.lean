import LootTables.Command.Run
import LootTables.Proofs.Result

/-!
# Reading options

The words of a command line are read from left to right, so that what has been read of it decides on
the rest (`readWords_append`). A switch that is on stays on, and nothing else depends on it
(`readWords_turnOn`), so that it may as well be given first (`Arguments.ofWords_cons_switch`).
-/

namespace LootTables

section

variable {a a' : Arguments} {s s' : ReadSoFar} {word : Text} {words : List Text}

theorem noOverwrite_set (o : ValueOption) (value : Text) (h : a.noOverwrite) :
    (a.set o value).noOverwrite := by
  cases o <;> exact h

theorem noOverwrite_turnOn (switch : Switch) (h : a.noOverwrite) :
    (a.turnOn switch).noOverwrite := by
  cases switch
  case noOverwrite => rfl
  all_goals exact h

theorem readCluster_noOverwrite (h : readCluster a word = .ok s) (hno : a.noOverwrite) :
    s.arguments.noOverwrite := by
  induction word generalizing a with
  | nil =>
    cases h
    exact hno
  | cons c rest ih =>
    unfold readCluster at h
    split at h
    · cases h
    · exact ih h (noOverwrite_turnOn _ hno)
    · split at h
      · cases h
        exact hno
      · cases h
        exact noOverwrite_set _ _ hno

theorem readLong_noOverwrite {name : Text} {value : Option Text} {o : CommandOption}
    (h : readLong a name value o = .ok s) (hno : a.noOverwrite) : s.arguments.noOverwrite := by
  unfold readLong at h
  split at h
  · cases h
    exact noOverwrite_set _ _ hno
  · cases h
    exact hno
  · cases h
  · cases h
    exact noOverwrite_turnOn _ hno

theorem readOption_noOverwrite (h : readOption a word = .ok s) (hno : a.noOverwrite) :
    s.arguments.noOverwrite := by
  unfold readOption at h
  dsimp only at h
  split at h
  · exact readLong_noOverwrite h hno
  · split at h
    · cases h
    · exact readCluster_noOverwrite h hno

/-- Once the switch is on, no further word turns it off. -/
theorem readWords_noOverwrite (h : readWords s words = .ok a) (hno : s.arguments.noOverwrite) :
    a.noOverwrite := by
  induction words generalizing s with
  | nil =>
    obtain ⟨b, _ | ⟨o, name⟩⟩ := s
    · cases h
      exact hno
    · cases h
  | cons word words ih =>
    obtain ⟨b, _ | ⟨o, name⟩⟩ := s
    · unfold readWords at h
      split_ifs at h
      · cases h
        exact hno
      · obtain ⟨next, hnext, h⟩ := bind_eq_ok_iff.1 h
        exact ih h (readOption_noOverwrite hnext hno)
      · exact ih h hno
    · unfold readWords at h
      exact ih h (noOverwrite_set o word hno)

/-- Words are read in their order, as long as none of them ends the options. -/
theorem readWords_append {before : List Text} (h : readWords s before = .ok a)
    (hend : endOfOptions ∉ before) : readWords s (before ++ words) = readWords ⟨a, none⟩ words := by
  induction before generalizing s with
  | nil =>
    obtain ⟨b, _ | ⟨o, name⟩⟩ := s
    · cases h
      rfl
    · cases h
  | cons word before ih =>
    obtain ⟨hword, hbefore⟩ := not_or.1 (mt List.mem_cons.2 hend)
    rw [List.cons_append]
    obtain ⟨b, _ | ⟨o, name⟩⟩ := s
    · rw [readWords, if_neg (Ne.symm hword)] at h ⊢
      split_ifs at h ⊢
      · obtain ⟨next, hnext, h⟩ := bind_eq_ok_iff.1 h
        rw [hnext]
        exact ih h hbefore
      · exact ih h hbefore
    · rw [readWords] at h ⊢
      exact ih h hbefore

/-! ### Switches given first -/

/-- What has been read, and a switch that is on. -/
def ReadSoFar.turnOn (r : ReadSoFar) (switch : Switch) : ReadSoFar :=
  { r with arguments := r.arguments.turnOn switch }

theorem turnOn_comm (a : Arguments) (switch switch' : Switch) :
    (a.turnOn switch).turnOn switch' = (a.turnOn switch').turnOn switch := by
  cases switch <;> cases switch' <;> rfl

theorem set_turnOn (a : Arguments) (switch : Switch) (o : ValueOption) (value : Text) :
    (a.turnOn switch).set o value = (a.set o value).turnOn switch := by
  cases switch <;> cases o <;> rfl

theorem add_turnOn (a : Arguments) (switch : Switch) (words : List Text) :
    (a.turnOn switch).add words = (a.add words).turnOn switch := by
  cases switch <;> rfl

theorem readCluster_turnOn (switch : Switch) (a : Arguments) (word : Text) :
    readCluster (a.turnOn switch) word = (·.turnOn switch) <$> readCluster a word := by
  induction word generalizing a with
  | nil => rfl
  | cons c rest ih =>
    rw [readCluster, readCluster]
    split
    · rfl
    · rw [turnOn_comm, ih]
    · rw [set_turnOn]
      split <;> rfl

theorem readLong_turnOn (switch : Switch) (a : Arguments) (name : Text) (value : Option Text)
    (o : CommandOption) :
    readLong (a.turnOn switch) name value o = (·.turnOn switch) <$> readLong a name value o := by
  unfold readLong
  split
  · rw [set_turnOn]
    rfl
  · rfl
  · rfl
  · rw [turnOn_comm]
    rfl

theorem readOption_turnOn (switch : Switch) (a : Arguments) (word : Text) :
    readOption (a.turnOn switch) word = (·.turnOn switch) <$> readOption a word := by
  unfold readOption
  dsimp only
  split
  · exact readLong_turnOn switch a _ _ _
  · split
    · rfl
    · exact readCluster_turnOn switch a _

/-- A switch that is on from the start is on at the end, and all else is as without it. -/
theorem readWords_turnOn (switch : Switch) (r : ReadSoFar) (words : List Text) :
    readWords (r.turnOn switch) words = (·.turnOn switch) <$> readWords r words := by
  induction words generalizing r with
  | nil =>
    obtain ⟨a, _ | ⟨o, name⟩⟩ := r <;> rfl
  | cons word words ih =>
    obtain ⟨a, _ | ⟨o, name⟩⟩ := r
    · unfold ReadSoFar.turnOn
      dsimp only
      rw [readWords, readWords, add_turnOn, add_turnOn, readOption_turnOn]
      split_ifs
      · rfl
      · cases readOption a word with
        | error e => rfl
        | ok next => exact ih next
      · exact ih ⟨a.add [word], none⟩
    · unfold ReadSoFar.turnOn
      dsimp only
      rw [readWords, readWords, set_turnOn]
      exact ih ⟨a.set o word, none⟩

/-- A switch in front of a command line is on, and nothing else changes. -/
theorem Arguments.ofWords_cons_switch (switch : Switch) (words : List Text) :
    Arguments.ofWords ((CommandOption.switch switch).longName :: words) =
      (·.turnOn switch) <$> Arguments.ofWords words := by
  have hswitch : Arguments.ofWords ((CommandOption.switch switch).longName :: words) =
      readWords (ReadSoFar.turnOn { arguments := {} } switch) words := by
    cases switch <;> rfl
  rw [hswitch, readWords_turnOn]
  rfl

end

end LootTables
