import Mathlib.Data.List.Basic
import Mathlib.Data.List.Induction
import Mathlib.Data.List.TakeDrop

/-!
Paths as a text over any characters: the components between separators, and what is left of them when `.` and `..`
are resolved without a look at the file system.
-/

namespace LexicalPath

inductive Move (α : Type)
  | down (name : α)
  | up

/--
Where a walk has led to, from the place where it began: so many levels up, and then down the names, of which the
innermost comes first.
-/
structure Place (α : Type) where
  ups : Nat
  names : List α

def Place.move {α : Type} : Place α → Move α → Place α
  | ⟨ups, names⟩, .down name => ⟨ups, name :: names⟩
  | ⟨ups, _ :: names⟩, .up => ⟨ups, names⟩
  | ⟨ups, []⟩, .up => ⟨ups + 1, []⟩

def walk {α : Type} (moves : List (Move α)) : Place α :=
  moves.foldl Place.move ⟨0, []⟩

def Move.isDown {α : Type} : Move α → Bool
  | .down _ => true
  | .up => false

section Walk

variable {α : Type} {moves : List (Move α)}

theorem walk_concat (moves : List (Move α)) (m : Move α) : walk (moves ++ [m]) = (walk moves).move m := by
  unfold walk
  rw [List.foldl_append]
  rfl

theorem walk_append (l m : List (Move α)) : walk (l ++ m) =
    ⟨(walk l).ups + ((walk m).ups - (walk l).names.length), (walk m).names ++ (walk l).names.drop (walk m).ups⟩ := by
  induction m using List.reverseRecOn with
  | nil =>
    have hstart : walk ([] : List (Move α)) = ⟨0, []⟩ := rfl
    rw [List.append_nil, hstart, Nat.zero_sub]
    rfl
  | append_singleton m move ih =>
    rw [← List.append_assoc, walk_concat, ih, walk_concat]
    generalize walk l = start
    obtain ⟨ups, names⟩ := walk m
    cases move with
    | down name => rfl
    | up =>
      cases names with
      | cons name names => rfl
      | nil =>
        simp only [Place.move, List.nil_append]
        cases hdrop : start.names.drop ups with
        | nil =>
          have hlen := List.drop_eq_nil_iff.mp hdrop
          rw [List.drop_eq_nil_of_le (Nat.le_succ_of_le hlen), Nat.succ_sub hlen]
          rfl
        | cons name names =>
          have hlen : ups < start.names.length := by
            by_contra hlen
            rw [List.drop_eq_nil_of_le (Nat.not_lt.mp hlen)] at hdrop
            cases hdrop
          have hnext : start.names.drop (ups + 1) = names := by
            rw [← List.drop_drop, hdrop]
            rfl
          rw [hnext, Nat.sub_eq_zero_of_le hlen, Nat.sub_eq_zero_of_le (Nat.le_of_lt hlen)]

theorem ups_walk_eq_zero (h : ∀ m ∈ moves, m.isDown = true) : (walk moves).ups = 0 := by
  induction moves using List.reverseRecOn with
  | nil => rfl
  | append_singleton moves move ih =>
    rw [List.forall_mem_append, List.forall_mem_singleton] at h
    have hups := ih h.1
    rw [walk_concat]
    cases move with
    | up => cases h.2
    | down name => exact hups

theorem length_names_of_down (h : ∀ m ∈ moves, m.isDown = true) : (walk moves).names.length = moves.length := by
  induction moves using List.reverseRecOn with
  | nil => rfl
  | append_singleton moves move ih =>
    rw [List.forall_mem_append, List.forall_mem_singleton] at h
    rw [walk_concat, List.length_append, ← ih h.1]
    cases move with
    | up => cases h.2
    | down name => rfl

theorem length_names_walk_le (moves : List (Move α)) : (walk moves).names.length ≤ moves.countP Move.isDown := by
  induction moves using List.reverseRecOn with
  | nil => exact Nat.le_refl _
  | append_singleton moves move ih =>
    rw [walk_concat, List.countP_append]
    revert ih
    obtain ⟨ups, names⟩ := walk moves
    intro ih
    cases move with
    | down name => exact Nat.succ_le_succ ih
    | up =>
      cases names with
      | nil => exact Nat.zero_le _
      | cons name names => exact Nat.le_of_succ_le ih

theorem walk_replicate_up (n : Nat) : walk (List.replicate n (Move.up : Move α)) = ⟨n, []⟩ := by
  induction n with
  | zero => rfl
  | succ n ih =>
    rw [List.replicate_succ', walk_concat, ih]
    rfl

theorem walk_climb {l m : List (Move α)} {n : Nat} (name : α) (hn : l.countP Move.isDown < n)
    (hm : ∀ move ∈ m, move.isDown = true)
    : 0 < (walk (l ++ List.replicate n .up ++ .down name :: m)).ups ∧
        ∃ names, (walk (l ++ List.replicate n .up ++ .down name :: m)).names = names ++ [name] := by
  have hlen : (walk l).names.length < n := Nat.lt_of_le_of_lt (length_names_walk_le l) hn
  have hclimb : walk (l ++ List.replicate n .up) = ⟨(walk l).ups + (n - (walk l).names.length), []⟩ := by
    rw [walk_append, walk_replicate_up, List.nil_append, List.drop_eq_nil_of_le (Nat.le_of_lt hlen)]
  have hname : walk (l ++ List.replicate n .up ++ [.down name]) =
      ⟨(walk l).ups + (n - (walk l).names.length), [name]⟩ := by
    rw [walk_concat, hclimb]
    rfl
  rw [List.append_cons, walk_append, hname, ups_walk_eq_zero hm]
  exact ⟨by dsimp only; omega, _, rfl⟩

end Walk

section Text

variable {χ : Type} [DecidableEq χ] (sep dot : χ)

def move? (component : List χ) : Option (Move (List χ)) :=
  if component = [] ∨ component = [dot] then
    none
  else if component = [dot, dot] then
    some .up
  else
    some (.down component)

def moves (path : List χ) : List (Move (List χ)) :=
  (path.splitOn sep).filterMap (move? dot)

def IsAbsolute (path : List χ) : Prop :=
  path.head? = some sep

instance (path : List χ) : Decidable (IsAbsolute sep path) :=
  inferInstanceAs (Decidable (path.head? = some sep))

structure Normal (χ : Type) where
  absolute : Bool
  ups : Nat
  names : List (List χ)
  deriving DecidableEq

/--
At the top of an absolute path `..` leads nowhere.
-/
def normalise (path : List χ) : Normal χ :=
  let place := walk (moves sep dot path)
  ⟨IsAbsolute sep path, if IsAbsolute sep path then 0 else place.ups, place.names⟩

/--
The normal form begins with that of the directory, which counts as inside of itself.
-/
def Inside (root path : List χ) : Prop :=
  (normalise sep dot path).absolute = (normalise sep dot root).absolute ∧
    (normalise sep dot path).ups = (normalise sep dot root).ups ∧
    (normalise sep dot root).names <:+ (normalise sep dot path).names

def NoParent (path : List χ) : Prop :=
  ∀ component ∈ path.splitOn sep, component ≠ [dot, dot]

instance (path : List χ) : Decidable (NoParent sep dot path) :=
  inferInstanceAs (Decidable (∀ component ∈ path.splitOn sep, component ≠ [dot, dot]))

variable {sep dot}

theorem moves_append {base : List χ} (h : base = [] ∨ base.getLast? = some sep) (tail : List χ)
    : moves sep dot (base ++ tail) = moves sep dot base ++ moves sep dot tail := by
  rcases h with rfl | h
  . rfl
  . obtain ⟨init, rfl⟩ := List.getLast?_eq_some_iff.mp h
    unfold moves
    rw [List.append_assoc, List.singleton_append, List.splitOn_append_cons_self, List.splitOn_append_cons_self,
      List.filterMap_append, List.filterMap_append]
    exact congrArg (· ++ _) (List.append_nil _).symm

theorem noParent_append_iff {base : List χ} (h : base = [] ∨ base.getLast? = some sep) (tail : List χ)
    : NoParent sep dot (base ++ tail) ↔ NoParent sep dot base ∧ NoParent sep dot tail := by
  have hnil : NoParent sep dot ([] : List χ) := by
    intro component hcomponent
    rw [List.splitOn_nil, List.mem_singleton] at hcomponent
    rw [hcomponent]
    exact (List.cons_ne_nil _ _).symm
  rcases h with rfl | h
  . exact (and_iff_right hnil).symm
  . obtain ⟨init, rfl⟩ := List.getLast?_eq_some_iff.mp h
    unfold NoParent at hnil ⊢
    rw [List.append_assoc, List.singleton_append, List.splitOn_append_cons_self, List.splitOn_append_cons_self,
      List.forall_mem_append, List.forall_mem_append, and_iff_left hnil]

theorem isDown_of_noParent {components : List (List χ)} (h : ∀ component ∈ components, component ≠ [dot, dot])
    : ∀ m ∈ components.filterMap (move? dot), m.isDown = true := by
  intro m hm
  obtain ⟨component, hmem, hmove⟩ := List.mem_filterMap.mp hm
  unfold move? at hmove
  rw [if_neg (h component hmem)] at hmove
  split at hmove
  . cases hmove
  . cases hmove
    rfl

theorem names_eq_nil_iff {path : List χ} (h : NoParent sep dot path) : (walk (moves sep dot path)).names = [] ↔
    ∀ component ∈ path.splitOn sep, component = [] ∨ component = [dot] := by
  have hmove : ∀ component : List χ, component ≠ [dot, dot] →
      (move? dot component = none ↔ component = [] ∨ component = [dot]) := by
    intro component hcomponent
    unfold move?
    rw [if_neg hcomponent]
    split
    . next hskip => exact iff_of_true rfl hskip
    . next hskip => exact iff_of_false nofun hskip
  have hdown : ∀ m ∈ moves sep dot path, m.isDown = true := isDown_of_noParent h
  rw [← List.length_eq_zero_iff, length_names_of_down hdown, List.length_eq_zero_iff]
  unfold moves
  rw [List.filterMap_eq_nil_iff]
  exact forall₂_congr fun component hcomponent => hmove component (h component hcomponent)

theorem ups_of_noParent {path : List χ} (h : NoParent sep dot path) : (walk (moves sep dot path)).ups = 0 :=
  ups_walk_eq_zero (isDown_of_noParent h)

theorem suffix_append_drop_iff {α : Type} (names stack : List α) (n : Nat)
    : stack <:+ names ++ stack.drop n ↔ stack.take n <:+ names := by
  constructor
  . rintro ⟨front, h⟩
    refine ⟨front, (List.append_left_inj (stack.drop n)).mp ?_⟩
    rw [List.append_assoc, List.take_append_drop]
    exact h
  . rintro ⟨front, rfl⟩
    exact ⟨front, by rw [List.append_assoc, List.take_append_drop]⟩

/--
A text that goes on after the directory stays inside if it climbs no further than it has gone down before, or comes
back down by the names that it has climbed. An absolute directory cannot be left through its top.
-/
def StaysUnder (sep dot : χ) (base tail : List χ) : Prop :=
  (base = [] → ¬IsAbsolute sep tail) ∧
    (¬IsAbsolute sep base →
      (walk (moves sep dot tail)).ups ≤ (walk (moves sep dot base)).names.length) ∧
    (walk (moves sep dot base)).names.take (walk (moves sep dot tail)).ups <:+ (walk (moves sep dot tail)).names

theorem inside_append_iff {base : List χ} (hbase : base = [] ∨ base.getLast? = some sep)
    (hparent : NoParent sep dot base) (tail : List χ)
    : Inside sep dot base (base ++ tail) ↔ StaysUnder sep dot base tail := by
  have hups := ups_of_noParent hparent
  have hwalk := walk_append (moves sep dot base) (moves sep dot tail)
  rw [← moves_append hbase tail] at hwalk
  unfold Inside normalise StaysUnder
  dsimp only
  rw [hwalk, hups, Nat.zero_add, suffix_append_drop_iff]
  by_cases hnil : base = []
  . subst hnil
    have hroot : ¬IsAbsolute sep ([] : List χ) := nofun
    by_cases htail : IsAbsolute sep tail
    . simp [htail, hroot]
    . simp [htail, hroot, moves, Nat.sub_eq_zero_iff_le]
  . have habsolute : IsAbsolute sep (base ++ tail) ↔ IsAbsolute sep base := by
      obtain ⟨c, base, rfl⟩ := List.exists_cons_of_ne_nil hnil
      rfl
    by_cases hroot : IsAbsolute sep base
    . simp [habsolute, hroot, hnil]
    . simp [habsolute, hroot, hnil, Nat.sub_eq_zero_iff_le]

section Hole

variable {after : List χ} {back : List (List χ)} {b : List χ}

theorem splitOn_append_of_not_mem (hb : b.splitOn sep = after :: back) {text : List χ} (htext : sep ∉ text)
    : (text ++ b).splitOn sep = (text ++ after) :: back := by
  induction text with
  | nil => exact hb
  | cons c text ih =>
    rw [List.mem_cons, not_or] at htext
    rw [List.cons_append, List.splitOn_cons_eq_if_modifyHead, if_neg (by simpa using Ne.symm htext.1), ih htext.2]
    rfl

theorem splitOn_hole (a : List χ) (hb : b.splitOn sep = after :: back)
    : ∃ front before, ∀ text, sep ∉ text →
        (a ++ text ++ b).splitOn sep = front ++ (before ++ text ++ after) :: back := by
  induction a with
  | nil => exact ⟨[], [], fun text htext => splitOn_append_of_not_mem hb htext⟩
  | cons c a ih =>
    obtain ⟨front, before, ih⟩ := ih
    by_cases hc : c = sep
    . refine ⟨[] :: front, before, fun text htext => ?_⟩
      rw [List.cons_append, List.cons_append, List.splitOn_cons_eq_if_modifyHead, if_pos (by simpa using hc),
        ih text htext]
      rfl
    . cases front with
      | nil =>
        refine ⟨[], c :: before, fun text htext => ?_⟩
        rw [List.cons_append, List.cons_append, List.splitOn_cons_eq_if_modifyHead, if_neg (by simpa using hc),
          ih text htext]
        rfl
      | cons component front =>
        refine ⟨(c :: component) :: front, before, fun text htext => ?_⟩
        rw [List.cons_append, List.cons_append, List.splitOn_cons_eq_if_modifyHead, if_neg (by simpa using hc),
          ih text htext]
        rfl

theorem noParent_replace {a mark text : List χ} (h : NoParent sep dot (a ++ mark ++ b)) (hmark : sep ∉ mark)
    (htext : sep ∉ text) {c : χ} (hc : c ∈ text) (hdot : c ≠ dot) : NoParent sep dot (a ++ text ++ b) := by
  obtain ⟨after, back, hb⟩ := List.exists_cons_of_ne_nil (List.splitOn_ne_nil sep b)
  obtain ⟨front, before, hsplit⟩ := splitOn_hole a hb
  unfold NoParent at h ⊢
  rw [hsplit _ hmark] at h
  rw [hsplit _ htext]
  intro component hcomponent
  rcases List.mem_append.mp hcomponent with hmem | hmem
  . exact h _ (List.mem_append_left _ hmem)
  . rcases List.mem_cons.mp hmem with rfl | hmem
    . intro hparent
      have hin : c ∈ before ++ text ++ after := List.mem_append_left _ (List.mem_append_right _ hc)
      rw [hparent] at hin
      simp [hdot] at hin
    . exact h _ (List.mem_append_right _ (List.mem_cons_of_mem _ hmem))

-- what follows the hole are components of their own
theorem noParent_behind {a mark : List χ} (h : NoParent sep dot (a ++ mark ++ b)) (hmark : sep ∉ mark)
    (hb : b.splitOn sep = after :: back) : ∀ component ∈ back, component ≠ [dot, dot] := by
  obtain ⟨front, before, hsplit⟩ := splitOn_hole a hb
  unfold NoParent at h
  rw [hsplit _ hmark] at h
  exact fun component hmem => h component (List.mem_append_right _ (List.mem_cons_of_mem _ hmem))

end Hole

/--
A text that climbs from wherever it is put, and goes on with a name.
-/
def climb (sep dot : χ) (n : Nat) (name : List χ) : List χ :=
  sep :: ((List.replicate n [dot, dot, sep]).flatten ++ name)

theorem splitOn_climb (hdot : dot ≠ sep) (a : List χ) (n : Nat) {name b after : List χ} {back : List (List χ)}
    (hname : sep ∉ name) (hb : b.splitOn sep = after :: back)
    : (a ++ climb sep dot n name ++ b).splitOn sep =
        a.splitOn sep ++ List.replicate n [dot, dot] ++ (name ++ after) :: back := by
  have hups : ((List.replicate n [dot, dot, sep]).flatten ++ (name ++ b)).splitOn sep =
      List.replicate n [dot, dot] ++ (name ++ after) :: back := by
    induction n with
    | zero => exact splitOn_append_of_not_mem hb hname
    | succ n ih =>
      have hparent : sep ∉ [dot, dot] := by simp [hdot.symm]
      rw [List.replicate_succ, List.flatten_cons, List.append_assoc]
      exact (List.splitOn_append_cons_self_of_not_mem hparent _).trans (congrArg ([dot, dot] :: ·) ih)
  unfold climb
  rw [List.append_assoc, List.cons_append, List.append_assoc, List.splitOn_append_cons_self, hups, List.append_assoc]

theorem filterMap_replicate_parent (n : Nat)
    : (List.replicate n [dot, dot]).filterMap (move? dot) = List.replicate n .up := by
  have hparent : move? dot [dot, dot] = some .up := by
    unfold move?
    rw [if_neg (by simp), if_pos rfl]
  rw [List.filterMap_replicate, hparent]

theorem countP_moves_climb_le (hdot : dot ≠ sep) (a : List χ) (n : Nat) {name b : List χ} (hname : sep ∉ name)
    : (moves sep dot (a ++ climb sep dot n name ++ b)).countP Move.isDown ≤
        (moves sep dot a).length + (b.splitOn sep).length := by
  obtain ⟨after, back, hb⟩ := List.exists_cons_of_ne_nil (List.splitOn_ne_nil sep b)
  have hups : (List.replicate n (Move.up : Move (List χ))).countP Move.isDown = 0 := by
    rw [List.countP_replicate]
    rfl
  have hfront := (moves sep dot a).countP_le_length (p := Move.isDown)
  have hback := (((name ++ after) :: back).filterMap (move? dot)).countP_le_length (p := Move.isDown)
  have hlen := List.length_filterMap_le (move? dot) ((name ++ after) :: back)
  unfold moves at hfront ⊢
  rw [splitOn_climb hdot a n hname hb, List.filterMap_append, List.filterMap_append, filterMap_replicate_parent,
    List.countP_append, List.countP_append, hups, hb]
  rw [List.length_cons] at hlen ⊢
  omega

/--
To climb far enough and go on with a name that the directory does not have leads out of it, unless the directory is
the top.
-/
theorem not_inside_climb (hdot : dot ≠ sep) {base a b name after : List χ} {back : List (List χ)} {n : Nat}
    (hbase : NoParent sep dot base) (htop : ¬(IsAbsolute sep base ∧ (walk (moves sep dot base)).names = []))
    (hn : (moves sep dot a).countP Move.isDown < n) (hb : b.splitOn sep = after :: back)
    (hback : ∀ component ∈ back, component ≠ [dot, dot]) (hname : sep ∉ name) {c : χ} (hc : c ∈ name) (hcdot : c ≠ dot)
    (hnew : name ++ after ∉ (walk (moves sep dot base)).names)
    : ¬Inside sep dot base (a ++ climb sep dot n name ++ b) := by
  have hmove : move? dot (name ++ after) = some (.down (name ++ after)) := by
    have hin : c ∈ name ++ after := List.mem_append_left _ hc
    unfold move?
    rw [if_neg, if_neg]
    . intro hparent
      rw [hparent] at hin
      simp [hcdot] at hin
    . rintro (hparent | hparent)
      . rw [hparent] at hin
        cases hin
      . rw [hparent] at hin
        simp [hcdot] at hin
  have hmoves : moves sep dot (a ++ climb sep dot n name ++ b) =
      moves sep dot a ++ List.replicate n .up ++ .down (name ++ after) :: back.filterMap (move? dot) := by
    unfold moves
    rw [splitOn_climb hdot a n hname hb, List.filterMap_append, List.filterMap_append, filterMap_replicate_parent,
      List.filterMap_cons_some hmove]
  obtain ⟨hups, names, hnames⟩ := walk_climb (name ++ after) hn (isDown_of_noParent hback)
  rw [← hmoves] at hups hnames
  unfold Inside normalise
  dsimp only
  rw [hnames, ups_of_noParent hbase]
  rintro ⟨habsolute, hzero, hsuffix⟩
  rw [decide_eq_decide] at habsolute
  by_cases hroot : IsAbsolute sep base
  . rcases List.eq_nil_or_concat' (walk (moves sep dot base)).names with hnil | ⟨init, last, hlast⟩
    . exact htop ⟨hroot, hnil⟩
    . rw [hlast] at hsuffix hnew
      obtain ⟨front, hfront⟩ := hsuffix
      rw [← List.append_assoc] at hfront
      have heq := List.append_inj_right' hfront rfl
      rw [List.singleton_inj] at heq
      exact hnew (List.mem_append_right _ (by rw [heq]; exact List.mem_singleton_self _))
  . rw [if_neg hroot, if_neg (mt habsolute.mp hroot)] at hzero
    omega

end Text

end LexicalPath
