import Kids.Conf.Config
import Kids.Util.UnitsLemmas

/-!
The lines `nlimit`: the limits that a line states, and the limits that it configures.
-/

namespace Kids

open Bytes

/--
An `nlimit` that is accepted sets the limits that its values state, and nothing else.
-/
def ConfiguresStated (conf : KidsConfig) (values : List Bytes) : Prop :=
  ∀ conf', conf.setNlimit values = (conf', true) → ∃ name hard soft seconds type limit,
    values = [name, hard, soft, seconds] ∧ limitType name = some type ∧ States sizeUnits hard limit.hardLimitBytes ∧
      States sizeUnits soft limit.softLimitBytes ∧ States timeUnits seconds limit.softLimitSeconds ∧
      conf' = conf.setLimit type limit

def LimitsWithin (values : List Bytes) : Prop :=
  ∀ name hard soft seconds, values = [name, hard, soft, seconds] → limitType name ≠ none →
    unitFactor sizeUnits (unitText hard) ≠ none → unitFactor sizeUnits (unitText soft) ≠ none →
      unitFactor timeUnits (unitText seconds) ≠ none →
        Within sizeUnits hard ∧ Within sizeUnits soft ∧ Within timeUnits seconds

theorem setLimit_setLimit (conf : KidsConfig) (type : Fin 3) (limit limit' : LimitConfig)
    : (conf.setLimit type limit).setLimit type limit' = conf.setLimit type limit' := by
  unfold KidsConfig.setLimit
  congr 1
  funext t
  dsimp only
  split
  . rfl
  . rfl

theorem nlimit_setLimit (conf : KidsConfig) (type : Fin 3) (limit : LimitConfig)
    : (conf.setLimit type limit).nlimit type = limit :=
  if_pos rfl

theorem setLimits_eq (conf : KidsConfig) (type : Fin 3) (hhard : parseSize hard = some h)
    (hsoft : parseSize soft = some s)
    (hseconds : parseTime seconds = some t)
    : conf.setLimits type hard soft seconds = (conf.setLimit type ⟨h, s, t⟩, true) := by
  unfold KidsConfig.setLimits
  rw [hhard]
  dsimp only
  rw [hsoft]
  dsimp only
  rw [hseconds]
  dsimp only
  rw [nlimit_setLimit, setLimit_setLimit, nlimit_setLimit, setLimit_setLimit]

theorem exists_of_setLimits {conf conf' : KidsConfig} {type : Fin 3}
    (haccepted : conf.setLimits type hard soft seconds = (conf', true))
    : ∃ h s t, parseSize hard = some h ∧ parseSize soft = some s ∧ parseTime seconds = some t ∧
        conf' = conf.setLimit type ⟨h, s, t⟩ := by
  have hunfolded := haccepted
  unfold KidsConfig.setLimits at hunfolded
  split at hunfolded
  . cases hunfolded
  . next h hhard =>
    split at hunfolded
    . cases hunfolded
    . next s hsoft =>
      split at hunfolded
      . cases hunfolded
      . next t hseconds =>
        rw [setLimits_eq conf type hhard hsoft hseconds] at haccepted
        cases haccepted
        exact ⟨h, s, t, hhard, hsoft, hseconds, rfl⟩

theorem exists_of_setNlimit {conf conf' : KidsConfig} (haccepted : conf.setNlimit values = (conf', true))
    : ∃ name hard soft seconds type h s t, values = [name, hard, soft, seconds] ∧ limitType name = some type ∧
        parseSize hard = some h ∧ parseSize soft = some s ∧ parseTime seconds = some t ∧
        conf' = conf.setLimit type ⟨h, s, t⟩ := by
  unfold KidsConfig.setNlimit at haccepted
  split at haccepted
  . next name hard soft seconds =>
    split at haccepted
    . cases haccepted
    . next type htype =>
      obtain ⟨h, s, t, hhard, hsoft, hseconds, hconf⟩ := exists_of_setLimits haccepted
      exact ⟨name, hard, soft, seconds, type, h, s, t, rfl, htype, hhard, hsoft, hseconds, hconf⟩
  . cases haccepted

theorem parse_of_unitFactor {units : List (List String × Int)} (h : unitFactor units (unitText str) ≠ none)
    : ∃ v, parseUnits units str = some v := by
  obtain ⟨factor, hfactor⟩ := Option.ne_none_iff_exists'.mp h
  exact ⟨int32 (number str * factor), by rw [parseUnits_eq, hfactor, Option.map_some]⟩

theorem unitFactor_of_parse {units : List (List String × Int)} (h : parseUnits units str = some v)
    : unitFactor units (unitText str) ≠ none := by
  intro hnone
  rw [parseUnits_eq, hnone] at h
  cases h

theorem configuresStated_iff (conf : KidsConfig) (values : List Bytes)
    : ConfiguresStated conf values ↔ LimitsWithin values := by
  constructor
  . rintro hstated name hard soft seconds rfl htype hhard hsoft hseconds
    obtain ⟨type, htype⟩ := Option.ne_none_iff_exists'.mp htype
    obtain ⟨h, hh⟩ := parse_of_unitFactor hhard
    obtain ⟨s, hs⟩ := parse_of_unitFactor hsoft
    obtain ⟨t, ht⟩ := parse_of_unitFactor hseconds
    have haccepted : conf.setNlimit [name, hard, soft, seconds] = (conf.setLimit type ⟨h, s, t⟩, true) := by
      unfold KidsConfig.setNlimit
      dsimp only
      rw [htype]
      exact setLimits_eq conf type hh hs ht
    obtain ⟨_, _, _, _, type', limit, heq, htype', hsizes, hsofts, htimes, hconf⟩ := hstated _ haccepted
    cases heq
    obtain rfl := Option.some.inj (htype.symm.trans htype')
    -- the limits that are stated are those that were read
    have hlimit := congrFun (congrArg KidsConfig.nlimit hconf) type
    rw [nlimit_setLimit, nlimit_setLimit] at hlimit
    subst hlimit
    refine ⟨within_of_states unitTable_size ?_, within_of_states unitTable_size ?_, within_of_states unitTable_time ?_⟩
    . intro v hv
      cases hh.symm.trans hv
      apply hsizes
    . intro v hv
      cases hs.symm.trans hv
      apply hsofts
    . intro v hv
      cases ht.symm.trans hv
      apply htimes
  . intro hwithin conf' haccepted
    obtain ⟨name, hard, soft, seconds, type, h, s, t, rfl, htype, hh, hs, ht, rfl⟩ := exists_of_setNlimit haccepted
    obtain ⟨hhard, hsoft, hseconds⟩ := hwithin name hard soft seconds rfl (Option.ne_none_iff_exists'.mpr ⟨type, htype⟩)
      (unitFactor_of_parse hh) (unitFactor_of_parse hs) (unitFactor_of_parse ht)
    exact ⟨name, hard, soft, seconds, type, ⟨h, s, t⟩, rfl, htype, parseUnits_within unitTable_size hhard hh,
      parseUnits_within unitTable_size hsoft hs, parseUnits_within unitTable_time hseconds ht, rfl⟩

/--
A size, a time and an `nlimit` are read as they are stated exactly if there is a digit in front of each unit and the
products are `int`s.
-/
theorem readsExactly_configuresStated_iff (str : Bytes) (conf : KidsConfig) (values : List Bytes)
    : (ReadsExactly sizeUnits parseSize str ↔ Within sizeUnits str) ∧
        (ReadsExactly timeUnits parseTime str ↔ Within timeUnits str) ∧
        (ConfiguresStated conf values ↔ LimitsWithin values) :=
  ⟨readsExactly_iff unitTable_size str, readsExactly_iff unitTable_time str, configuresStated_iff conf values⟩

-- `4g` is read as no bytes, which turns the limit off
theorem readsExactly_fails_four_gigabytes : ¬ReadsExactly sizeUnits parseSize [52, 103] := by
  intro hreads
  have hzero : into 1 (parseSize [52, 103]) = (true, 0) := by decide
  obtain ⟨-, factor, hfactor, hvalue⟩ := (states_iff unitTable_size _ _).mp (hreads.sound 1 0 hzero)
  have hunit : unitFactor sizeUnits (unitText [52, 103]) = some (1024 * 1024 * 1024) := by decide
  cases hunit.symm.trans hfactor
  revert hvalue
  decide

end Kids
