import Kids.Store.Create
import Kids.Util.UnitsLemmas

/-!
The divisions of a `FileStore` by its rotate interval, which comes from a text of the configuration.
-/

namespace Kids

open Bytes

-- `t % interval`, where `none` is a division by zero
def modulo (t interval : Int) : Option Int :=
  if interval = 0 then none else some (t.tmod interval)

theorem modulo_ne_none_iff (t interval : Int) : modulo t interval ≠ none ↔ interval ≠ 0 := by
  unfold modulo
  split
  . next hzero => exact iff_of_false (not_not_intro rfl) (not_not_intro hzero)
  . next hne => exact iff_of_true nofun hne

namespace StoreConfig

/--
What `FileStore::Cron` asks to find out whether it rotates.
-/
def cronRotates (conf : StoreConfig) (isOpen : Bool) (lastRotate t : Int) : Option Bool :=
  if isOpen then
    if conf.rotateInterval ≠ -1 then
      (modulo t conf.rotateInterval).map fun rest => rest = 0 && lastRotate < t
    else
      some false
  else
    some false

/--
The time that `FileStore::DoAddMessage` opens a file for.
-/
def messageTime (conf : StoreConfig) (t : Int) : Option Int :=
  if conf.rotateInterval > 0 then (modulo t conf.rotateInterval).map (t - ·) else some t

structure NoDivisionByZero (conf : StoreConfig) : Prop where
  cron : ∀ isOpen lastRotate t, conf.cronRotates isOpen lastRotate t ≠ none
  addMessage : ∀ t, conf.messageTime t ≠ none

/--
The text is a number, which may have no digit, and a unit of time, and their product is a multiple of `2 ^ 32`.
-/
def WrapsToZero (str : Bytes) : Prop :=
  ∃ factor, unitFactor timeUnits (unitText str) = some factor ∧ (number str * factor) % 2 ^ 32 = 0

theorem noDivisionByZero_iff_ne (conf : StoreConfig) : conf.NoDivisionByZero ↔ conf.rotateInterval ≠ 0 := by
  constructor
  . intro h
    have hcron := h.cron true 0 0
    unfold cronRotates at hcron
    rw [if_pos rfl] at hcron
    split at hcron
    . rw [ne_eq, Option.map_eq_none_iff] at hcron
      apply (modulo_ne_none_iff 0 _).mp hcron
    . next hnone =>
      rw [not_not] at hnone
      rw [hnone]
      decide
  . intro hne
    constructor
    . intro isOpen lastRotate t
      unfold cronRotates
      split
      . split
        . rw [ne_eq, Option.map_eq_none_iff]
          apply (modulo_ne_none_iff t _).mpr hne
        . nofun
      . nofun
    . intro t
      unfold messageTime
      split
      . rw [ne_eq, Option.map_eq_none_iff]
        apply (modulo_ne_none_iff t _).mpr hne
      . nofun

theorem parseTime_eq_zero_iff (str : Bytes) : parseTime str = some 0 ↔ WrapsToZero str := by
  rw [parseTime, parseUnits_eq, Option.map_eq_some_iff]
  apply exists_congr
  intro factor
  rw [int32_eq_zero_iff]

theorem wrapsToZero_ne_nil (h : WrapsToZero str) : str ≠ [] := by
  rintro rfl
  obtain ⟨factor, hfactor, -⟩ := h
  have hnone : unitFactor timeUnits (unitText []) = none := by decide
  cases hnone.symm.trans hfactor

theorem rotateInterval_eq_zero_iff (conf : StoreConfig) : conf.rotateInterval = 0 ↔ WrapsToZero conf.rotate := by
  unfold rotateInterval
  split
  . next hnone =>
    apply iff_of_false
    . decide
    . intro hwraps
      apply wrapsToZero_ne_nil hwraps hnone.2
  . split
    . next hdaily =>
      rw [hdaily, ← parseTime_eq_zero_iff]
      decide
    . split
      . next hhourly =>
        rw [hhourly, ← parseTime_eq_zero_iff]
        decide
      . rw [← parseTime_eq_zero_iff]
        cases parseTime conf.rotate with
        | none => simp
        | some v => simp

/--
A `FileStore` never divides by zero exactly if its `rotate` is not a time that wraps to zero.
-/
theorem noDivisionByZero_iff (conf : StoreConfig) : conf.NoDivisionByZero ↔ ¬WrapsToZero conf.rotate := by
  rw [noDivisionByZero_iff_ne, ne_eq, rotateInterval_eq_zero_iff]

-- `rotate 0s`
theorem noDivisionByZero_fails_zero
    : ¬({ StoreConfig.new with rotate := [48, 115] } : StoreConfig).NoDivisionByZero := by
  intro h
  apply h.cron true 0 0
  decide

end StoreConfig
end Kids
