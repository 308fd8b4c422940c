import EdgeOrchestrator.Foundation.StackWalk
import Mathlib.Data.List.ReduceOption

/-!
# Places of a file tree

A walk through a file tree enters entries and goes up again. An entry may be a link that leads
anywhere, so going up from where it has led need not lead back. Below a base without links a place
is told by the names that lead to it, and a walk by its net walk.

Above the base nothing is known of the links. A walk from the top therefore ends below the base in
every tree exactly when it spells the names of the base, then goes up from nothing but what it has
entered since, and leaves something entered.
-/

namespace EdgeOrchestrator.StackWalk

variable {Name : Type}

/-- The places of a file tree: what entering an entry leads to, links followed, and what lies above
a place. -/
structure Places (Name : Type) where
  Place : Type
  top : Place
  entry : Place → Name → Place
  up : Place → Place
  up_top : up top = top

namespace Places

/-- The tree without links: a place is the names that lead to it. -/
abbrev lexical (Name : Type) : Places Name where
  Place := List Name
  top := []
  entry place name := place ++ [name]
  up := List.dropLast
  up_top := List.dropLast_nil

variable (places : Places Name)

def step (place : places.Place) : StackMove Name → places.Place
  | .push name => places.entry place name
  | .pop => places.up place

def walk (place : places.Place) (moves : List (StackMove Name)) : places.Place :=
  moves.foldl places.step place

/-- Where the names lead, each below the one before it. -/
def descend (place : places.Place) (names : List Name) : places.Place :=
  places.walk place (names.map StackMove.push)

/-- Going up from an entry below the base leads back. -/
def NoLinksBelow (base : places.Place) : Prop :=
  ∀ names name, places.up (places.descend base (names ++ [name])) = places.descend base names

def StrictlyBelow (base place : places.Place) : Prop :=
  ∃ names ≠ [], place = places.descend base names

/-- Where steps lead that start from directories: an entry is looked up in any place, but a step
that stays (`none`) or goes up fails when the place it starts from is no directory. -/
def reach (isDirectory : places.Place → Bool) :
    places.Place → List (Option (StackMove Name)) → Option places.Place
  | place, [] => some place
  | place, some (.push name) :: rest => reach isDirectory (places.entry place name) rest
  | place, some .pop :: rest =>
    if isDirectory place then reach isDirectory (places.up place) rest else none
  | place, none :: rest => if isDirectory place then reach isDirectory place rest else none

variable {places}

theorem walk_append (place : places.Place) (earlier later : List (StackMove Name)) :
    places.walk place (earlier ++ later) = places.walk (places.walk place earlier) later :=
  List.foldl_append

theorem walk_concat (place : places.Place) (earlier : List (StackMove Name))
    (last : StackMove Name) :
    places.walk place (earlier ++ [last]) = places.step (places.walk place earlier) last :=
  walk_append place earlier [last]

theorem descend_concat (place : places.Place) (names : List Name) (name : Name) :
    places.descend place (names ++ [name]) = places.entry (places.descend place names) name := by
  rw [descend, List.map_append, List.map_singleton, walk_concat]
  rfl

theorem lexical_walk (place : List Name) (moves : List (StackMove Name)) :
    (lexical Name).walk place moves = moves.foldl StackMove.apply place := by
  have hstep : (lexical Name).step = StackMove.apply := by
    funext stack move
    cases move <;> rfl
  rw [walk, hstep]

theorem lexical_descend (place names : List Name) :
    (lexical Name).descend place names = place ++ names := by
  induction names using List.reverseRecOn with
  | nil => exact (List.append_nil place).symm
  | append_singleton earlier last ih =>
    rw [descend_concat, ih, ← List.append_assoc]

theorem noLinksBelow_lexical (base : List Name) : (lexical Name).NoLinksBelow base := by
  intro names name
  rw [lexical_descend, lexical_descend, ← List.append_assoc]
  exact List.dropLast_concat

section Reach

variable {isDirectory : places.Place → Bool}

/-- A walk that gets anywhere gets where its moves lead. -/
theorem eq_walk_of_reach {place found : places.Place} {steps : List (Option (StackMove Name))}
    (hreach : places.reach isDirectory place steps = some found) :
    found = places.walk place steps.reduceOption := by
  induction steps generalizing place with
  | nil => exact (Option.some.inj hreach).symm
  | cons first rest ih =>
    cases first with
    | none =>
      rw [reach] at hreach
      split_ifs at hreach
      rw [List.reduceOption_cons_of_none]
      exact ih hreach
    | some move =>
      rw [List.reduceOption_cons_of_some]
      cases move with
      | push name => exact ih hreach
      | pop =>
        rw [reach] at hreach
        split_ifs at hreach
        exact ih hreach

/-- More directories let a walk get where it got before. -/
theorem reach_mono {left right : places.Place → Bool}
    (hmore : ∀ place, left place = true → right place = true) {place found : places.Place}
    {steps : List (Option (StackMove Name))} (hreach : places.reach left place steps = some found) :
    places.reach right place steps = some found := by
  induction steps generalizing place with
  | nil => exact hreach
  | cons first rest ih =>
    rcases first with - | name | -
    · rw [reach, Option.ite_none_right_eq_some] at hreach
      rw [reach, if_pos (hmore place hreach.1)]
      exact ih hreach.2
    · exact ih hreach
    · rw [reach, Option.ite_none_right_eq_some] at hreach
      rw [reach, if_pos (hmore place hreach.1)]
      exact ih hreach.2

theorem reach_descend (place : places.Place) (names : List Name) :
    places.reach isDirectory place (names.map fun name ↦ some (.push name)) =
      some (places.descend place names) := by
  induction names generalizing place with
  | nil => rfl
  | cons name rest ih => exact ih (places.entry place name)

/-- Where a walk leads depends on the directories on its way alone. -/
theorem reach_congr {left right : places.Place → Bool} {place : places.Place}
    {steps : List (Option (StackMove Name))}
    (hsame : ∀ earlier, earlier <+: steps →
      left (places.walk place earlier.reduceOption) =
        right (places.walk place earlier.reduceOption)) :
    places.reach left place steps = places.reach right place steps := by
  induction steps generalizing place with
  | nil => rfl
  | cons first rest ih =>
    have hhere : left place = right place := hsame [] List.nil_prefix
    have hrest : ∀ next, (∀ earlier, places.walk place (first :: earlier).reduceOption =
          places.walk next earlier.reduceOption) →
        places.reach left next rest = places.reach right next rest := by
      intro next hnext
      apply ih
      intro earlier hbefore
      rw [← hnext]
      exact hsame (first :: earlier) (List.cons_prefix_cons.mpr ⟨rfl, hbefore⟩)
    rcases first with - | name | -
    · rw [reach, reach, hhere, hrest place fun earlier ↦ by
        rw [List.reduceOption_cons_of_none]]
    · exact hrest (places.entry place name) fun earlier ↦ by
        rw [List.reduceOption_cons_of_some]
        rfl
    · rw [reach, reach, hhere, hrest (places.up place) fun earlier ↦ by
        rw [List.reduceOption_cons_of_some]
        rfl]

end Reach

/-! ## Walks below a base without links -/

section Below

variable {base : places.Place}

/-- Such a walk is told by its net walk, if it does not climb out of the base. -/
theorem walk_eq_descend (hlinks : places.NoLinksBelow base) {moves : List (StackMove Name)}
    (hstays : base = places.top ∨ (NetWalk.ofMoves moves).pops = 0) :
    places.walk base moves = places.descend base (NetWalk.ofMoves moves).pushed := by
  induction moves using List.reverseRecOn with
  | nil => rfl
  | append_singleton earlier last ih =>
    rw [NetWalk.ofMoves_concat] at hstays ⊢
    have hearlier : base = places.top ∨ (NetWalk.ofMoves earlier).pops = 0 :=
      hstays.imp_right NetWalk.pops_of_andThen
    rw [walk_concat, ih hearlier]
    cases last with
    | push name => exact (descend_concat base _ name).symm
    | pop =>
      cases hpushed : (NetWalk.ofMoves earlier).pushed using List.reverseRecOn with
      | nil =>
        -- the walk climbs out of the base, which the top alone allows
        rw [NetWalk.andThen, hpushed] at hstays ⊢
        have htop : base = places.top := hstays.resolve_right (Nat.succ_ne_zero _)
        rw [htop]
        exact places.up_top
      | append_singleton names name =>
        rw [NetWalk.andThen_pop_concat hpushed]
        exact hlinks names name

theorem strictlyBelow_of_stays (hlinks : places.NoLinksBelow base)
    {moves : List (StackMove Name)}
    (hstays : base = places.top ∨ (NetWalk.ofMoves moves).pops = 0)
    (hpushed : (NetWalk.ofMoves moves).pushed ≠ []) :
    places.StrictlyBelow base (places.walk base moves) :=
  ⟨_, hpushed, walk_eq_descend hlinks hstays⟩

end Below

/-! ## Walks that end below a base in every tree -/

/-- The top is above itself, so going up first does nothing. -/
def fromTop (moves : List (StackMove Name)) : List (StackMove Name) :=
  moves.dropWhile StackMove.isPop

theorem walk_fromTop (moves : List (StackMove Name)) :
    places.walk places.top (fromTop moves) = places.walk places.top moves := by
  induction moves with
  | nil => rfl
  | cons first rest ih =>
    cases first with
    | push name => rfl
    | pop =>
      calc places.walk places.top (fromTop (.pop :: rest))
          = places.walk places.top rest := ih
        _ = places.walk (places.up places.top) rest := by rw [places.up_top]

theorem fromTop_prefix {earlier moves : List (StackMove Name)} (hbefore : earlier <+: moves) :
    fromTop earlier <+: fromTop moves := by
  obtain ⟨later, rfl⟩ := hbefore
  rw [fromTop, fromTop, List.dropWhile_append]
  split_ifs with hempty
  · rw [List.isEmpty_iff.mp hempty]
    exact List.nil_prefix
  · exact List.prefix_append _ _

theorem head?_fromTop (moves : List (StackMove Name)) : (fromTop moves).head? ≠ some .pop := by
  intro hhead
  obtain ⟨rest, hcons⟩ := List.head?_eq_some_iff.mp hhead
  have hnot := List.head?_dropWhile_not StackMove.isPop moves
  rw [← fromTop, hcons] at hnot
  cases hnot

theorem fromTop_concat_push (moves : List (StackMove Name)) (name : Name) :
    fromTop (moves ++ [.push name]) = fromTop moves ++ [.push name] := by
  rw [fromTop, fromTop, List.dropWhile_append]
  split_ifs with hempty
  · rw [List.isEmpty_iff.mp hempty]
    rfl
  · rfl

theorem exists_names_of_no_pop {moves : List (StackMove Name)}
    (hpushes : ∀ move ∈ moves, move.isPop = false) :
    ∃ names : List Name, moves = names.map StackMove.push := by
  induction moves with
  | nil => exact ⟨[], rfl⟩
  | cons first rest ih =>
    rw [List.forall_mem_cons] at hpushes
    obtain ⟨names, rfl⟩ := ih hpushes.2
    cases first with
    | push name => exact ⟨name :: names, rfl⟩
    | pop => cases hpushes.1

section Histories

/-- The tree in which every entry is a link: going up leads somewhere new from everywhere but the
top, and a place is the history of the walk to it. -/
abbrev histories (Name : Type) : Places Name where
  Place := List (StackMove Name)
  top := []
  entry place name := place ++ [.push name]
  up place := if place.isEmpty then [] else place ++ [.pop]
  up_top := rfl

theorem histories_walk_of_ne_nil {place : List (StackMove Name)} (hplace : place ≠ [])
    (moves : List (StackMove Name)) : (histories Name).walk place moves = place ++ moves := by
  induction moves generalizing place with
  | nil => exact (List.append_nil place).symm
  | cons first rest ih =>
    have hstep : (histories Name).step place first = place ++ [first] := by
      cases first with
      | push name => rfl
      | pop => exact if_neg (by simpa using hplace)
    calc (histories Name).walk place (first :: rest)
        = (histories Name).walk (place ++ [first]) rest := by rw [← hstep]; rfl
      _ = place ++ [first] ++ rest :=
          ih (List.append_ne_nil_of_right_ne_nil _ (List.cons_ne_nil _ _))
      _ = place ++ first :: rest := List.append_assoc _ _ _

theorem histories_walk (moves : List (StackMove Name)) :
    (histories Name).walk [] moves = fromTop moves := by
  rw [show (histories Name).walk [] moves = _ from (walk_fromTop moves).symm]
  have hhead := head?_fromTop moves
  generalize fromTop moves = front at hhead ⊢
  rcases front with - | ⟨name | -, rest⟩
  · rfl
  · exact histories_walk_of_ne_nil (List.cons_ne_nil _ _) rest
  · exact absurd rfl hhead

theorem histories_descend (names : List Name) :
    (histories Name).descend [] names = names.map StackMove.push := by
  rw [descend, histories_walk]
  cases names <;> rfl

end Histories

/-- The walk spells the names of the base, goes up from nothing but what it has entered since, and
leaves something entered. -/
def StaysBelow (root : List Name) (moves : List (StackMove Name)) : Prop :=
  ∃ tail, fromTop moves = root.map StackMove.push ++ tail ∧
    (root = [] ∨ (NetWalk.ofMoves tail).pops = 0) ∧ (NetWalk.ofMoves tail).pushed ≠ []

theorem strictlyBelow_of_staysBelow {root : List Name} {moves : List (StackMove Name)}
    (hlinks : places.NoLinksBelow (places.descend places.top root))
    (hstays : StaysBelow root moves) :
    places.StrictlyBelow (places.descend places.top root) (places.walk places.top moves) := by
  obtain ⟨tail, hspells, hpops, hpushed⟩ := hstays
  rw [← walk_fromTop, hspells, walk_append]
  apply strictlyBelow_of_stays hlinks _ hpushed
  apply hpops.imp_left
  intro hroot
  rw [hroot]
  rfl

/-- Moves behind the names of a base that does not start at the top are those of the whole walk. -/
theorem fromTop_names {names : List Name} (hnames : names ≠ []) (tail : List (StackMove Name)) :
    fromTop (names.map StackMove.push ++ tail) = names.map StackMove.push ++ tail := by
  cases names with
  | nil => exact absurd rfl hnames
  | cons name rest => rfl

theorem staysBelow_names_iff {root : List Name} (hroot : root ≠ [])
    (tail : List (StackMove Name)) :
    StaysBelow root (root.map StackMove.push ++ tail) ↔
      (NetWalk.ofMoves tail).pops = 0 ∧ (NetWalk.ofMoves tail).pushed ≠ [] := by
  rw [StaysBelow, fromTop_names hroot]
  constructor
  · rintro ⟨found, hspells, hpops, hpushed⟩
    rw [List.append_cancel_left hspells]
    exact ⟨hpops.resolve_left hroot, hpushed⟩
  · rintro ⟨hpops, hpushed⟩
    exact ⟨tail, rfl, Or.inr hpops, hpushed⟩

/-- Without climbing out, leading moves up are none. -/
theorem fromTop_of_no_pops {moves : List (StackMove Name)}
    (hpops : (NetWalk.ofMoves moves).pops = 0) : fromTop moves = moves := by
  cases moves with
  | nil => rfl
  | cons first rest =>
    cases first with
    | push name => rfl
    | pop =>
      have hfirst := NetWalk.pops_of_append
        (show (NetWalk.ofMoves ([.pop] ++ rest)).pops = 0 from hpops)
      cases hfirst

theorem staysBelow_of_no_pops (root : List Name) {tail : List (StackMove Name)}
    (hpops : (NetWalk.ofMoves tail).pops = 0) (hpushed : (NetWalk.ofMoves tail).pushed ≠ []) :
    StaysBelow root (root.map StackMove.push ++ tail) := by
  refine ⟨tail, ?_, Or.inr hpops, hpushed⟩
  cases root with
  | nil => exact fromTop_of_no_pops hpops
  | cons name rest => rfl

/-- Names lead to the place that are on the way to the base, or go on below it. -/
def OnWay (places : Places Name) (root : List Name) (place : places.Place) : Prop :=
  ∃ names, (names <+: root ∨ root <+: names) ∧ place = places.descend places.top names

/-- A walk that stays below the base never leaves the way to it. -/
theorem onWay_of_staysBelow {root : List Name} {moves earlier : List (StackMove Name)}
    (hlinks : places.NoLinksBelow (places.descend places.top root))
    (hstays : StaysBelow root moves) (hbefore : earlier <+: moves) :
    places.OnWay root (places.walk places.top earlier) := by
  obtain ⟨tail, hspells, hpops, -⟩ := hstays
  have hfront : fromTop earlier <+: root.map StackMove.push ++ tail := by
    rw [← hspells]
    exact fromTop_prefix hbefore
  rw [← walk_fromTop]
  rcases List.prefix_or_prefix_of_prefix hfront (List.prefix_append _ tail) with hway | hbelow
  · obtain ⟨names, hnames, hmap⟩ := List.prefix_map_iff.mp hway
    exact ⟨names, Or.inl hnames, by rw [hmap]; rfl⟩
  · obtain ⟨done, hdone⟩ := hbelow
    rw [← hdone] at hfront ⊢
    obtain ⟨rest, hrest⟩ := (List.prefix_append_right_inj _).mp hfront
    have hkept : places.descend places.top root = places.top ∨ (NetWalk.ofMoves done).pops = 0 := by
      rcases hpops with hroot | hpops
      · exact Or.inl (by rw [hroot]; rfl)
      · rw [← hrest] at hpops
        exact Or.inr (NetWalk.pops_of_append hpops)
    refine ⟨root ++ (NetWalk.ofMoves done).pushed, Or.inr (List.prefix_append _ _), ?_⟩
    calc places.walk places.top (root.map StackMove.push ++ done)
        = places.walk (places.descend places.top root) done := walk_append _ _ _
      _ = places.descend (places.descend places.top root) (NetWalk.ofMoves done).pushed :=
          walk_eq_descend hlinks hkept
      _ = places.descend places.top (root ++ (NetWalk.ofMoves done).pushed) := by
          rw [descend, descend, descend, List.map_append, walk_append]

section Linked

variable (root : List Name)

/-- The place is below the base, or the top. -/
def InLinked (place : List (StackMove Name)) : Prop :=
  place = [] ∨ ∃ names ≠ [], place = root.map StackMove.push ++ names.map StackMove.push

open Classical in
/-- A tree in which every entry outside the base is a link: going up leads somewhere new. A place
is the history of the walk to it, cancelled below the base. -/
noncomputable abbrev linked : Places Name where
  Place := List (StackMove Name)
  top := []
  entry place name := place ++ [.push name]
  up place := if InLinked root place then place.dropLast else place ++ [.pop]
  up_top := if_pos (Or.inl rfl)

/-- Neither on the way to the base nor below it. -/
def Stray (place : List (StackMove Name)) : Prop :=
  ¬ place <+: root.map StackMove.push ∧
    ∀ names : List Name, place ≠ root.map StackMove.push ++ names.map StackMove.push

variable {root}

theorem linked_descend (place : List (StackMove Name)) (names : List Name) :
    (linked root).descend place names = place ++ names.map StackMove.push := by
  induction names using List.reverseRecOn with
  | nil => exact (List.append_nil place).symm
  | append_singleton earlier last ih =>
    rw [descend_concat, ih, List.map_append, ← List.append_assoc]
    rfl

theorem linked_base : (linked root).descend (linked root).top root = root.map StackMove.push :=
  linked_descend [] root

theorem noLinksBelow_linked :
    (linked root).NoLinksBelow ((linked root).descend (linked root).top root) := by
  intro names name
  rw [linked_base, linked_descend, linked_descend]
  have hbelow : InLinked root (root.map StackMove.push ++ (names ++ [name]).map StackMove.push) :=
    Or.inr ⟨names ++ [name], List.append_ne_nil_of_right_ne_nil _ (List.cons_ne_nil _ _), rfl⟩
  calc (linked root).up (root.map StackMove.push ++ (names ++ [name]).map StackMove.push)
      = (root.map StackMove.push ++ (names ++ [name]).map StackMove.push).dropLast :=
        if_pos hbelow
    _ = root.map StackMove.push ++ names.map StackMove.push := by
        rw [List.map_append, ← List.append_assoc, List.map_singleton, List.dropLast_concat]

theorem Stray.concat {place : List (StackMove Name)} (hstray : Stray root place)
    (move : StackMove Name) : Stray root (place ++ [move]) := by
  constructor
  · exact fun hbefore ↦ hstray.1 ((List.prefix_append place [move]).trans hbefore)
  · intro names hplace
    cases names using List.reverseRecOn with
    | nil =>
      rw [List.map_nil, List.append_nil] at hplace
      exact hstray.1 ⟨[move], hplace⟩
    | append_singleton earlier last =>
      rw [List.map_append, ← List.append_assoc] at hplace
      exact hstray.2 earlier (List.append_inj_left' hplace rfl)

/-- Going up outside the base, a place that is not the top strays. -/
theorem stray_of_pop {place : List (StackMove Name)} : Stray root (place ++ [.pop]) := by
  have hpushes : ∀ names : List Name, StackMove.pop ∉ names.map StackMove.push := by
    intro names hmem
    obtain ⟨name, -, hname⟩ := List.mem_map.mp hmem
    cases hname
  have hmem : StackMove.pop ∈ place ++ [.pop] := List.mem_append_right _ (List.mem_singleton_self _)
  constructor
  · exact fun hbefore ↦ hpushes root (hbefore.subset hmem)
  · intro names hplace
    rw [hplace, ← List.map_append] at hmem
    exact hpushes _ hmem

theorem stray_of_up {place : List (StackMove Name)} (hout : ¬ InLinked root place) :
    Stray root ((linked root).step place .pop) := by
  have hup : (linked root).step place .pop = place ++ [.pop] := if_neg hout
  rw [hup]
  exact stray_of_pop

theorem Stray.step {place : List (StackMove Name)} (hstray : Stray root place)
    (move : StackMove Name) : Stray root ((linked root).step place move) := by
  cases move with
  | push name => exact hstray.concat _
  | pop =>
    have hout : ¬ InLinked root place := by
      rintro (hempty | ⟨names, -, hplace⟩)
      · exact hstray.1 (hempty ▸ List.nil_prefix)
      · exact hstray.2 names hplace
    exact stray_of_up hout

theorem Stray.walk {place : List (StackMove Name)} (hstray : Stray root place)
    (moves : List (StackMove Name)) : Stray root ((linked root).walk place moves) := by
  induction moves generalizing place with
  | nil => exact hstray
  | cons first rest ih => exact ih (hstray.step first)

theorem Stray.not_below {place : List (StackMove Name)} (hstray : Stray root place) :
    ¬ (linked root).StrictlyBelow (root.map StackMove.push) place := by
  rintro ⟨names, -, hplace⟩
  rw [linked_descend] at hplace
  exact hstray.2 names hplace

/-- On the way to the base a walk that ends below it goes on with the names that are missing. -/
theorem spells_rest {place : List (StackMove Name)} {rest : List Name}
    {moves : List (StackMove Name)} (hroot : place ++ rest.map StackMove.push =
      root.map StackMove.push) (hhead : place = [] → moves.head? ≠ some .pop)
    (hbelow : (linked root).StrictlyBelow (root.map StackMove.push)
      ((linked root).walk place moves)) :
    ∃ tail, moves = rest.map StackMove.push ++ tail ∧
      (linked root).walk place moves = (linked root).walk (root.map StackMove.push) tail := by
  induction rest generalizing place moves with
  | nil =>
    rw [List.map_nil, List.append_nil] at hroot
    exact ⟨moves, rfl, by rw [hroot]⟩
  | cons name later ih =>
    have hlonger : place.length < (root.map StackMove.push).length := by
      rw [← hroot, List.length_append, List.length_map, List.length_cons]
      omega
    cases moves with
    | nil =>
      obtain ⟨names, -, hplace⟩ := hbelow
      rw [linked_descend] at hplace
      have hlength := congrArg List.length (show place = _ from hplace)
      rw [List.length_append] at hlength
      omega
    | cons first after =>
      by_cases hfirst : first = .push name
      · rw [hfirst] at hbelow ⊢
        have hnext : place ++ [.push name] ++ later.map StackMove.push =
            root.map StackMove.push := by
          rw [← hroot, List.append_assoc]
          rfl
        have hnonempty : place ++ [.push name] ≠ [] :=
          List.append_ne_nil_of_right_ne_nil _ (List.cons_ne_nil _ _)
        obtain ⟨tail, hafter, hwalk⟩ := ih hnext (fun hempty ↦ absurd hempty hnonempty) hbelow
        exact ⟨tail, by rw [hafter]; rfl, hwalk⟩
      · have hstray : Stray root ((linked root).step place first) := by
          cases first with
          | push other =>
            constructor
            · intro hbefore
              rw [← hroot] at hbefore
              obtain ⟨more, hmore⟩ := hbefore
              have hcons := List.append_cancel_left
                ((List.append_assoc place [.push other] more).symm.trans hmore)
              exact hfirst (List.cons_eq_cons.mp hcons).1
            · intro names hplace
              rw [← hroot] at hplace
              rw [List.append_assoc, List.map_cons, List.cons_append] at hplace
              exact hfirst (List.cons_eq_cons.mp (List.append_cancel_left hplace)).1
          | pop =>
            have hout : ¬ InLinked root place := by
              rintro (hempty | ⟨names, -, hplace⟩)
              · exact hhead hempty rfl
              · rw [hplace, List.length_append] at hlonger
                omega
            exact stray_of_up hout
        exact absurd hbelow (hstray.walk after).not_below

/-- From the base, a walk that climbs out of it strays. -/
theorem stray_of_pops (hroot : root ≠ []) {tail : List (StackMove Name)}
    (hpops : (NetWalk.ofMoves tail).pops ≠ 0) :
    Stray root ((linked root).walk (root.map StackMove.push) tail) := by
  induction tail using List.reverseRecOn with
  | nil => exact absurd rfl hpops
  | append_singleton earlier last ih =>
    rw [walk_concat]
    by_cases hearlier : (NetWalk.ofMoves earlier).pops = 0
    · have hwalk : (linked root).walk (root.map StackMove.push) earlier =
          root.map StackMove.push ++ (NetWalk.ofMoves earlier).pushed.map StackMove.push := by
        rw [← linked_descend, ← linked_base]
        exact walk_eq_descend noLinksBelow_linked (Or.inr hearlier)
      rw [NetWalk.ofMoves_concat] at hpops
      cases last with
      | push name => exact absurd hearlier hpops
      | pop =>
        rw [NetWalk.andThen] at hpops
        split at hpops
        · rename_i hpushed
          rw [hpushed, List.map_nil, List.append_nil] at hwalk
          have hout : ¬ InLinked root (root.map StackMove.push) := by
            rintro (hempty | ⟨names, hnames, hplace⟩)
            · exact hroot (List.map_eq_nil_iff.mp hempty)
            · exact hnames (List.map_eq_nil_iff.mp (List.append_right_eq_self.mp hplace.symm))
          rw [hwalk]
          exact stray_of_up hout
        · exact absurd hearlier hpops
    · exact (ih hearlier).step last

end Linked

/-- A walk from the top ends strictly below a base in every tree without links below that base
exactly when it stays below it. -/
theorem strictlyBelow_everywhere_iff (root : List Name) (moves : List (StackMove Name)) :
    (∀ places : Places Name, places.NoLinksBelow (places.descend places.top root) →
      places.StrictlyBelow (places.descend places.top root) (places.walk places.top moves)) ↔
      StaysBelow root moves := by
  constructor
  · intro hbelow
    have hlinked := hbelow (linked root) noLinksBelow_linked
    rw [← walk_fromTop, linked_base] at hlinked
    obtain ⟨tail, hspells, hwalk⟩ := spells_rest (List.nil_append _)
      (fun _ ↦ head?_fromTop moves) hlinked
    rw [hwalk] at hlinked
    have hpops : root = [] ∨ (NetWalk.ofMoves tail).pops = 0 := by
      by_contra hclimbs
      rw [not_or] at hclimbs
      exact (stray_of_pops hclimbs.1 hclimbs.2).not_below hlinked
    refine ⟨tail, hspells, hpops, ?_⟩
    intro hpushed
    have htop : (linked root).descend (linked root).top root = (linked root).top ∨
        (NetWalk.ofMoves tail).pops = 0 := by
      apply hpops.imp_left
      intro hroot
      rw [hroot]
      rfl
    obtain ⟨names, hnames, hplace⟩ := hlinked
    have hback : root.map StackMove.push = root.map StackMove.push ++ names.map StackMove.push := by
      calc root.map StackMove.push
          = (linked root).walk (root.map StackMove.push) tail := by
            rw [← linked_base, walk_eq_descend noLinksBelow_linked htop, hpushed]
            rfl
        _ = root.map StackMove.push ++ names.map StackMove.push :=
            hplace.trans (linked_descend _ names)
    exact hnames (List.map_eq_nil_iff.mp (List.append_right_eq_self.mp hback.symm))
  · intro hstays places hlinks
    exact strictlyBelow_of_staysBelow hlinks hstays

end Places

end EdgeOrchestrator.StackWalk
