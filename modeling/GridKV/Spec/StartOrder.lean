import GridKV.ForStd.Run
import GridKV.Model.Lifecycle

/-!
# In which order components start

`resolveOrder` is a depth-first search: it always returns, and what it returns is an order
in which dependencies come first, or an error that is right about a cycle or a missing
component (`resolveOrder_settles`).  `Close` takes the components in the opposite order, one
after the other.  But `Start` only launches its goroutines in that order, and a goroutine
waits for nobody: the order of the calls of `Start` is that of the scheduler, whatever the
dependencies are.
-/

namespace GridKV

open Go Run Relation List

namespace LifecycleManager

variable {lm : LifecycleManager} {depth : Nat} (regs : List (GoString × List GoString))
  {s : Starting} {names order temp : List GoString} (x : GoString) (reg : GoString × List GoString)
  {name dep : GoString} {r' r : Resolution}

/-! ### The order -/

def DependsOn (lm : LifecycleManager) (name dep : GoString) : Prop := dep ∈ lm.deps name

/-- Every name comes after its dependencies. -/
def DepsFirst (lm : LifecycleManager) (order : List GoString) : Prop :=
  ∀ before name after, order = before ++ name :: after → ∀ dep ∈ lm.deps name, dep ∈ before

/-- The error is right. -/
def Justified (lm : LifecycleManager) : LifecycleError → Prop
  | .circularDependency name => TransGen lm.DependsOn name name
  | .componentNotFound name dep => name ∈ lm.components ∧ dep ∈ lm.deps name ∧ dep ∉ lm.components
  | _ => False

/-- What holds of the variables between two calls of `visit`. -/
structure Resolved (lm : LifecycleManager) (r : Resolution) : Prop where
  mem_visited : ∀ name, name ∈ r.visited ↔ name ∈ r.result
  nodup : r.result.Nodup
  registered : r.result ⊆ lm.components
  depsFirst : lm.DepsFirst r.result

/-- What holds of the names that are being visited when `name` is the next. -/
structure OnPath (lm : LifecycleManager) (temp : List GoString) (name : GoString) : Prop where
  nodup : temp.Nodup
  registered : temp ⊆ lm.components
  reaches : ∀ t ∈ temp, TransGen lm.DependsOn t name

/-- The outcome of visiting `names`: they are in the order now, and none that is being
    visited is. -/
def Settles (lm : LifecycleManager) (r : Resolution) (names : List GoString) :
    Except LifecycleError Resolution → Prop
  | .ok r' => lm.Resolved r' ∧ r'.temp = r.temp ∧ r.result ⊆ r'.result ∧
      (∀ name ∈ r'.result, name ∈ r.result ∨ name ∉ r.temp) ∧ ∀ name ∈ names, name ∈ r'.result
  | .error err => lm.Justified err

theorem findComponent_eq_none : lm.findComponent name = none ↔ name ∉ lm.components := by
  rw [findComponent, find?_eq_none]
  constructor
  · exact fun h hmem => h name hmem (by simp)
  · intro h component hmem heq
    rw [decide_eq_true_eq] at heq
    exact h (heq ▸ hmem)

theorem findComponent_of_mem (h : name ∈ lm.components) : lm.findComponent name = some name := by
  cases hfind : lm.findComponent name with
  | none => exact absurd h (findComponent_eq_none.mp hfind)
  | some component =>
    have heq := find?_some hfind
    rw [decide_eq_true_eq] at heq
    rw [heq]

theorem DepsFirst.concat (h : lm.DepsFirst order) (hname : ∀ dep ∈ lm.deps name, dep ∈ order) :
    lm.DepsFirst (order ++ [name]) := by
  intro before last after heq dep hdep
  rcases eq_nil_or_concat after with rfl | ⟨after', z, rfl⟩
  · obtain ⟨rfl, hlast⟩ := append_inj' heq rfl
    obtain rfl : name = last := by simpa using hlast
    exact hname dep hdep
  · rw [concat_eq_append, ← cons_append, ← append_assoc] at heq
    exact h before last after' (append_inj' heq rfl).1 dep hdep

theorem Settles.trans {names' : List GoString} {out : Except LifecycleError Resolution}
    (h : lm.Settles r names (.ok r')) (h' : lm.Settles r' names' out) :
    lm.Settles r (names ++ names') out := by
  cases out with
  | error err => exact h'
  | ok r'' =>
    obtain ⟨-, htemp, hsub, hnew, hnames⟩ := h
    obtain ⟨hresolved, htemp', hsub', hnew', hnames'⟩ := h'
    refine ⟨hresolved, htemp'.trans htemp, List.Subset.trans hsub hsub', ?_, ?_⟩
    · intro name hname
      obtain hold | hout := hnew' name hname
      · exact hnew name hold
      · exact .inr (htemp ▸ hout)
    · intro name hname
      obtain hname | hname := mem_append.mp hname
      · exact hsub' (hnames name hname)
      · exact hnames' name hname

theorem OnPath.length_le (h : lm.OnPath temp name) : temp.length ≤ lm.components.length :=
  (List.Nodup.subperm h.nodup h.registered).length_le

/-- The next call of `visit` is for a dependency. -/
theorem OnPath.cons (h : lm.OnPath temp name) (hnew : name ∉ temp) (hname : name ∈ lm.components)
    (hdep : dep ∈ lm.deps name) :
    lm.OnPath (name :: temp) dep where
  nodup := nodup_cons.mpr ⟨hnew, h.nodup⟩
  registered := cons_subset.mpr ⟨hname, h.registered⟩
  reaches t ht := by
    obtain rfl | ht := mem_cons.mp ht
    · exact .single hdep
    · exact (h.reaches t ht).tail hdep

/-- The loop over the dependencies, if `visit` does what it should. -/
theorem visitDeps_settles
    (visit : Resolution → GoString → Option (Except LifecycleError Resolution)) {ds : List GoString}
    (hname : name ∈ lm.components) (hds : ds ⊆ lm.deps name)
    (hvisit : ∀ r dep, lm.Resolved r → r.temp = temp → dep ∈ lm.deps name → dep ∈ lm.components →
      ∃ out, visit r dep = some out ∧ lm.Settles r [dep] out) (hr : lm.Resolved r)
    (htemp : r.temp = temp) :
    ∃ out, lm.visitDeps visit name r ds = some out ∧ lm.Settles r ds out := by
  induction ds generalizing r with
  | nil => exact ⟨.ok r, rfl, hr, rfl, List.Subset.refl _, fun _ => .inl, fun _ h => nomatch h⟩
  | cons dep ds ih =>
    obtain ⟨hdep, hds⟩ := cons_subset.mp hds
    unfold visitDeps
    split
    · rename_i hmissing
      exact ⟨_, rfl, hname, hdep, findComponent_eq_none.mp hmissing⟩
    · rename_i hfound
      rw [findComponent_eq_none, not_not] at hfound
      obtain ⟨out, hout, hsettles⟩ := hvisit r dep hr htemp hdep hfound
      rw [hout]
      cases out with
      | error err => exact ⟨_, rfl, hsettles⟩
      | ok r' =>
        obtain ⟨out', hout', hsettles'⟩ := ih hds hsettles.1 (hsettles.2.1.trans htemp)
        exact ⟨out', hout', hsettles.trans hsettles'⟩

/-- A component whose dependencies are settled comes next in the order. -/
theorem Resolved.settles_of_deps (hr : lm.Resolved r) (hname : name ∈ lm.components)
    (hnew : name ∉ r.temp) (hunvisited : name ∉ r.visited)
    (h : lm.Settles { r with temp := name :: r.temp } (lm.deps name) (.ok r')) :
    lm.Settles r [name] (.ok
      { visited := name :: r'.visited
        temp := r'.temp.erase name
        result := r'.result ++ [name] }) := by
  obtain ⟨hr', htemp, hsub, hadded, hdeps⟩ := h
  have hnotin : name ∉ r'.result := by
    intro hin
    obtain hold | hout := hadded name hin
    · exact hunvisited ((hr.mem_visited name).mpr hold)
    · exact hout mem_cons_self
  refine ⟨⟨?_, ?_, ?_, hr'.depsFirst.concat hdeps⟩, ?_, ?_, ?_, ?_⟩
  · intro x
    simp [hr'.mem_visited, or_comm]
  · rw [← concat_eq_append]
    exact hr'.nodup.concat hnotin
  · exact append_subset.mpr ⟨hr'.registered, by simpa using hname⟩
  · show r'.temp.erase name = r.temp
    rw [htemp, erase_cons_head]
  · exact List.Subset.trans hsub (subset_append_left _ _)
  · intro x hx
    obtain hx | hx := mem_append.mp hx
    · exact (hadded x hx).imp_right fun hout hin => hout (mem_cons_of_mem _ hin)
    · rw [mem_singleton.mp hx]
      exact .inr hnew
  · intro x hx
    exact mem_append_right _ hx

/-- `visit` returns if it may go deep enough, and settles its component. -/
theorem visit_settles (hr : lm.Resolved r) (hpath : lm.OnPath r.temp name)
    (hname : name ∈ lm.components) (hdepth : lm.components.length + 1 ≤ depth + r.temp.length) :
    ∃ out, lm.visit depth r name = some out ∧ lm.Settles r [name] out := by
  -- Induction on the depth that is left; each level has one more name on its path.
  induction depth generalizing r name with
  | zero =>
    have hle := hpath.length_le
    omega
  | succ depth ih =>
    unfold visit
    split
    · rename_i hcycle
      exact ⟨_, rfl, hpath.reaches name hcycle⟩
    · rename_i hnew
      split
      · rename_i hvisited
        refine ⟨.ok r, rfl, hr, rfl, List.Subset.refl _, fun _ => .inl, fun x hx => ?_⟩
        rw [mem_singleton.mp hx]
        exact (hr.mem_visited name).mp hvisited
      · rename_i hunvisited
        have hnext : lm.Resolved { r with temp := name :: r.temp } :=
          ⟨hr.mem_visited, hr.nodup, hr.registered, hr.depsFirst⟩
        obtain ⟨out, hout, hsettles⟩ := visitDeps_settles (lm.visit depth) hname
          (List.Subset.refl (lm.deps name))
          (fun r' dep hr' htemp hdep hfound => by
            refine ih hr' (htemp ▸ hpath.cons hnew hname hdep) hfound ?_
            rw [htemp, length_cons]
            omega)
          hnext rfl
        rw [hout]
        cases out with
        | error err => exact ⟨_, rfl, hsettles⟩
        | ok r' => exact ⟨_, rfl, hr.settles_of_deps hname hnew hunvisited hsettles⟩

theorem visitAll_settles (hdepth : lm.components.length + 1 ≤ depth)
    (hnames : names ⊆ lm.components) (hr : lm.Resolved r) (htemp : r.temp = []) :
    ∃ out, lm.visitAll depth r names = some out ∧ lm.Settles r names out := by
  induction names generalizing r with
  | nil => exact ⟨.ok r, rfl, hr, rfl, List.Subset.refl _, fun _ => .inl, fun _ h => nomatch h⟩
  | cons name names ih =>
    obtain ⟨hname, hnames⟩ := cons_subset.mp hnames
    have hpath : lm.OnPath r.temp name := by
      rw [htemp]
      exact ⟨.nil, nil_subset _, fun _ h => nomatch h⟩
    obtain ⟨out, hout, hsettles⟩ := visit_settles hr hpath hname (Nat.le_add_right_of_le hdepth)
    unfold visitAll
    rw [hout]
    cases out with
    | error err => exact ⟨_, rfl, hsettles⟩
    | ok r' =>
      obtain ⟨out', hout', hsettles'⟩ := ih hnames hsettles.1 (hsettles.2.1.trans htemp)
      exact ⟨out', hout', hsettles.trans hsettles'⟩

/-- `resolveOrder` always returns: an order of all components in which dependencies come
    first, or an error that is right. -/
theorem resolveOrder_settles (lm : LifecycleManager) :
    (∃ order, lm.resolveOrder = some (.ok order) ∧ order.Nodup ∧
      (∀ name, name ∈ order ↔ name ∈ lm.components) ∧ lm.DepsFirst order) ∨
    ∃ err, lm.resolveOrder = some (.error err) ∧ lm.Justified err := by
  have hstart : lm.Resolved {} :=
    ⟨fun _ => Iff.rfl, .nil, nil_subset _, fun before _ _ heq => by simp at heq⟩
  obtain ⟨out, hout, hsettles⟩ :=
    visitAll_settles (Nat.le_refl _) (List.Subset.refl lm.components) hstart rfl
  unfold resolveOrder
  rw [hout]
  cases out with
  | error err => exact .inr ⟨err, rfl, hsettles⟩
  | ok r =>
    obtain ⟨hr, -, -, -, hall⟩ := hsettles
    exact .inl ⟨r.result, rfl, hr.nodup, fun name => ⟨fun h => hr.registered h, hall name⟩,
      hr.depsFirst⟩

/-- No component depends on itself, not even indirectly. -/
def Acyclic (lm : LifecycleManager) : Prop := ∀ name, ¬ TransGen lm.DependsOn name name

/-- Every dependency of a component is a component. -/
def DepsRegistered (lm : LifecycleManager) : Prop :=
  ∀ name ∈ lm.components, ∀ dep ∈ lm.deps name, dep ∈ lm.components

/-- Without cycles and missing components there is an order. -/
theorem exists_resolveOrder (hacyclic : lm.Acyclic) (hregistered : lm.DepsRegistered) :
    ∃ order, lm.resolveOrder = some (.ok order) ∧ order.Nodup ∧
      (∀ name, name ∈ order ↔ name ∈ lm.components) ∧ lm.DepsFirst order := by
  obtain hok | ⟨err, -, herr⟩ := lm.resolveOrder_settles
  · exact hok
  · cases err with
    | circularDependency name => exact absurd herr (hacyclic name)
    | componentNotFound name dep => exact absurd (hregistered name herr.1 dep herr.2.1) herr.2.2
    | alreadyStarted | startTimeout | component => exact absurd herr id

/-- Dependencies that lead to a smaller rank do not lead back. -/
theorem acyclic_of_rank (rank : GoString → Nat)
    (h : ∀ name, ∀ dep ∈ lm.deps name, rank dep < rank name) : lm.Acyclic := by
  have htrans : ∀ a b, TransGen lm.DependsOn a b → rank b < rank a := by
    intro a b hab
    induction hab with
    | single hdep => exact h _ _ hdep
    | tail _ hdep ih => exact Nat.lt_trans (h _ _ hdep) ih
  exact fun name hcycle => Nat.lt_irrefl _ (htrans name name hcycle)

/-! ### Registered components -/

theorem deps_register (lm : LifecycleManager) (name : GoString) (deps : List GoString)
    (x : GoString) :
    (lm.register name deps).deps x = if x = name ∧ deps ≠ [] then deps else lm.deps x := by
  unfold register LifecycleManager.deps
  by_cases hdeps : deps = []
  · simp [hdeps]
  · have hpos : deps.length > 0 := length_pos_iff.mpr hdeps
    simp only [if_pos hpos]
    by_cases hx : x = name
    · rw [if_pos ⟨hx, hdeps⟩, hx, AList.lookup_insert, Option.getD_some]
    · rw [if_neg fun h => hx h.1, AList.lookup_insert_ne hx]

theorem deps_new : ({} : LifecycleManager).deps x = [] := rfl

/-- The manager after components have been registered with their dependencies. -/
def registerAll (regs : List (GoString × List GoString)) : LifecycleManager :=
  regs.foldl (fun lm reg => lm.register reg.1 reg.2) {}

/-- A component is registered with a dependency. -/
def Lists (regs : List (GoString × List GoString)) (name dep : GoString) : Prop :=
  ∃ deps, (name, deps) ∈ regs ∧ dep ∈ deps

theorem registerAll_concat :
    registerAll (regs ++ [reg]) = (registerAll regs).register reg.1 reg.2 :=
  foldl_concat ..

theorem components_registerAll : (registerAll regs).components = regs.map Prod.fst := by
  induction regs using reverseRecOn with
  | nil => rfl
  | append_singleton regs reg ih =>
    rw [registerAll_concat, map_append, ← ih]
    rfl

theorem Lists.mem {regs : List (GoString × List GoString)} (h : Lists regs name dep) :
    name ∈ regs.map Prod.fst := by
  obtain ⟨deps, hmem, -⟩ := h
  exact mem_map_of_mem hmem

theorem lists_concat (name dep : GoString) :
    Lists (regs ++ [reg]) name dep ↔ Lists regs name dep ∨ name = reg.1 ∧ dep ∈ reg.2 := by
  constructor
  · rintro ⟨deps, hmem, hdep⟩
    obtain hmem | hmem := mem_append.mp hmem
    · exact .inl ⟨deps, hmem, hdep⟩
    · obtain rfl := mem_singleton.mp hmem
      exact .inr ⟨rfl, hdep⟩
  · rintro (⟨deps, hmem, hdep⟩ | ⟨rfl, hdep⟩)
    · exact ⟨deps, mem_append_left _ hmem, hdep⟩
    · exact ⟨reg.2, mem_append_right _ (mem_singleton.mpr rfl), hdep⟩

/-- With distinct names, the dependencies of a component are those it was registered with. -/
theorem dependsOn_registerAll {regs : List (GoString × List GoString)}
    (hnodup : (regs.map Prod.fst).Nodup) : (registerAll regs).DependsOn = Lists regs := by
  induction regs using reverseRecOn with
  | nil =>
    funext name dep
    simp [registerAll, DependsOn, deps_new, Lists]
  | append_singleton regs reg ih =>
    rw [map_append, map_singleton] at hnodup
    obtain ⟨hnodup, -, hnew⟩ := nodup_append.mp hnodup
    funext name dep
    have hold : (dep ∈ (registerAll regs).deps name) = Lists regs name dep :=
      congrFun (congrFun (ih hnodup) name) dep
    rw [DependsOn, registerAll_concat, deps_register, lists_concat, ← hold]
    by_cases hname : name = reg.1
    · -- A new name has had no dependencies.
      have hnone : dep ∉ (registerAll regs).deps name := by
        rw [hold]
        exact fun h => hnew name h.mem reg.1 (mem_singleton.mpr rfl) hname
      by_cases hempty : reg.2 = []
      · simp [hempty, hnone]
      · simp [hname, hempty, hname ▸ hnone]
    · simp [hname]

/-- An order in which dependencies come first shows that there are no cycles. -/
theorem acyclic_of_depsFirst (hnodup : order.Nodup) (hfirst : lm.DepsFirst order)
    (hmem : ∀ name, lm.deps name ≠ [] → name ∈ order) : lm.Acyclic := by
  apply acyclic_of_rank fun name => order.idxOf name
  intro name dep hdep
  obtain ⟨before, after, rfl⟩ := append_of_mem (hmem name (ne_nil_of_mem hdep))
  have hbefore := hfirst before name after rfl dep hdep
  have hname : name ∉ before := fun h => disjoint_of_nodup_append hnodup h mem_cons_self
  rw [idxOf_append_of_mem hbefore, idxOf_append_of_notMem hname, idxOf_cons_self]
  exact idxOf_lt_length_of_mem hbefore

/-- **The order.**  For components with distinct names `resolveOrder` always returns; it
    succeeds if and only if the dependencies are registered and there is no cycle, and then
    the order has each name once, after its dependencies. -/
theorem resolveOrder_registerAll {regs : List (GoString × List GoString)}
    (hnodup : (regs.map Prod.fst).Nodup) :
    ∃ out, (registerAll regs).resolveOrder = some out ∧
      ((∃ order, out = .ok order) ↔
        (∀ name dep, Lists regs name dep → dep ∈ regs.map Prod.fst) ∧
          ∀ name, ¬TransGen (Lists regs) name name) ∧
      ∀ order, out = .ok order → order.Perm (regs.map Prod.fst) ∧
        ∀ before name after, order = before ++ name :: after →
          ∀ dep, Lists regs name dep → dep ∈ before := by
  have hdeps : (registerAll regs).DependsOn = Lists regs := dependsOn_registerAll hnodup
  have hlists : ∀ name dep, dep ∈ (registerAll regs).deps name ↔ Lists regs name dep :=
    fun name dep => iff_of_eq (congrFun (congrFun hdeps name) dep)
  have hcomponents := components_registerAll regs
  obtain ⟨order, horder, hordered, hmem, hfirst⟩ | ⟨err, herr, hjust⟩ :=
    (registerAll regs).resolveOrder_settles
  · rw [hcomponents] at hmem
    have hafter : ∀ before name after, order = before ++ name :: after →
        ∀ dep, Lists regs name dep → dep ∈ before :=
      fun before name after heq dep hdep =>
        hfirst before name after heq dep ((hlists name dep).mpr hdep)
    refine ⟨_, horder, ⟨fun _ => ⟨?_, ?_⟩, fun _ => ⟨order, rfl⟩⟩, ?_⟩
    · intro name dep hdep
      obtain ⟨before, after, rfl⟩ := append_of_mem ((hmem name).mpr hdep.mem)
      exact (hmem dep).mp (mem_append_left _ (hafter before name after rfl dep hdep))
    · have hacyclic := acyclic_of_depsFirst hordered hfirst fun name hne => by
        obtain ⟨dep, hdep⟩ := exists_mem_of_ne_nil _ hne
        exact (hmem name).mpr ((hlists name dep).mp hdep).mem
      rw [Acyclic, hdeps] at hacyclic
      exact hacyclic
    · intro order' heq
      cases heq
      exact ⟨(perm_ext_iff_of_nodup hordered hnodup).mpr hmem, hafter⟩
  · refine ⟨_, herr, ⟨?_, ?_⟩, ?_⟩
    · rintro ⟨order, heq⟩
      cases heq
    · -- The error is right, so one of the two conditions fails.
      rintro ⟨hregistered, hacyclic⟩
      cases err with
      | circularDependency name =>
        rw [Justified, hdeps] at hjust
        exact absurd hjust (hacyclic name)
      | componentNotFound name dep =>
        obtain ⟨-, hdep, hmissing⟩ := hjust
        rw [hcomponents] at hmissing
        exact absurd (hregistered name dep ((hlists name dep).mp hdep)) hmissing
      | alreadyStarted | startTimeout | component => exact absurd hjust id
    · intro order heq
      cases heq

/-- A component and one that depends on it. -/
theorem resolveOrder_registerAll_pair :
    ∃ out, (registerAll [(ascii "b", [ascii "a"]), (ascii "a", [])]).resolveOrder = some out ∧
      ((∃ order, out = .ok order) ↔
        (∀ name dep, Lists [(ascii "b", [ascii "a"]), (ascii "a", [])] name dep →
          dep ∈ [(ascii "b", [ascii "a"]), (ascii "a", [])].map Prod.fst) ∧
          ∀ name, ¬TransGen (Lists [(ascii "b", [ascii "a"]), (ascii "a", [])]) name name) ∧
      ∀ order, out = .ok order →
        order.Perm ([(ascii "b", [ascii "a"]), (ascii "a", [])].map Prod.fst) ∧
        ∀ before name after, order = before ++ name :: after →
          ∀ dep, Lists [(ascii "b", [ascii "a"]), (ascii "a", [])] name dep → dep ∈ before :=
  resolveOrder_registerAll (by decide)

/-! ### Closing -/

/-- `Close` closes every component once, and before those it depends on. -/
def ClosesInOrder (lm : LifecycleManager) (closes : GoString → Bool) : Prop :=
  ∃ closed err, lm.closeWithTimeout closes = some (closed, err) ∧ closed.Nodup ∧
    (∀ name, name ∈ closed ↔ name ∈ lm.components) ∧
    ∀ before name after, closed = before ++ name :: after → ∀ dep ∈ lm.deps name, dep ∈ after

/-- Closing goes through the order from its end. -/
theorem closesInOrder_of_order (hstarted : lm.started = true)
    (horder : lm.resolveOrder = some (.ok order)) (hnodup : order.Nodup)
    (hmem : ∀ name, name ∈ order ↔ name ∈ lm.components) (hfirst : lm.DepsFirst order)
    (closes : GoString → Bool) : lm.ClosesInOrder closes := by
  have hfound : order.reverse.filterMap lm.findComponent = order.reverse := by
    rw [filterMap_congr (g := some), filterMap_some]
    intro name hname
    exact findComponent_of_mem ((hmem name).mp (mem_reverse.mp hname))
  have hclose : lm.closeWithTimeout closes =
      some (order.reverse, (order.reverse.find? fun name => ! closes name).map .component) := by
    rw [closeWithTimeout, if_pos hstarted, horder, Option.map_some]
    show some (lm.closeAll closes order) = _
    rw [closeAll, hfound]
  refine ⟨order.reverse, _, hclose, nodup_reverse.mpr hnodup, ?_, ?_⟩
  · intro name
    rw [mem_reverse, hmem]
  · intro before name after heq dep hdep
    have horder' : order = after.reverse ++ name :: before.reverse := by
      rw [← reverse_reverse order, heq]
      simp
    exact mem_reverse.mp (hfirst _ _ _ horder' dep hdep)

/-! ### Starting -/

/-- Only components are launched. -/
theorem mem_components_of_run {t : Starting} {actions : List StartAction}
    (hrun : Runs lm.startStep s actions t)
    (hs : ∀ name, s.phase name ≠ .idle → name ∈ lm.components) :
    ∀ name, t.phase name ≠ .idle → name ∈ lm.components := by
  refine hrun.invariant (I := fun s => ∀ name, s.phase name ≠ .idle → name ∈ lm.components) ?_ hs
  intro s action t hs _ hstep
  -- The goroutine of one component moves, and the component is known.
  have hmove : ∀ {component phase}, component ∈ lm.components →
      ∀ name, Function.update s.phase component phase name ≠ .idle → name ∈ lm.components := by
    intro component phase hcomponent name hname
    by_cases heq : name = component
    · exact heq ▸ hcomponent
    · rw [Function.update_of_ne heq] at hname
      exact hs name hname
  cases action with
  | launch =>
    simp only [startStep] at hstep
    split at hstep
    · cases hstep
    · split at hstep
      · cases hstep
        exact hs
      · rename_i component hfind
        cases hstep
        exact hmove (mem_of_find?_eq_some hfind)
  | start component =>
    simp only [startStep] at hstep
    split at hstep <;> cases hstep
    rename_i hphase
    exact hmove (hs component (by rw [hphase]; decide))
  | finish component ok =>
    simp only [startStep] at hstep
    split at hstep <;> cases hstep
    rename_i hphase
    exact hmove (hs component (by rw [hphase]; decide))
  | join =>
    simp only [startStep] at hstep
    split at hstep <;> cases hstep
    exact hs
  | timeout =>
    simp only [startStep] at hstep
    split at hstep <;> cases hstep
    exact hs

/-- The loop can launch everything before any goroutine calls `Start`. -/
theorem exists_launch_all (s : Starting) (hs : ∀ name ∈ s.rest, name ∈ lm.components) :
    ∃ t, Runs lm.startStep s (replicate s.rest.length .launch) t ∧
      ∀ name, t.phase name = if name ∈ s.rest then .launched else s.phase name := by
  induction hrest : s.rest generalizing s with
  | nil => exact ⟨s, .nil s, fun name => by simp⟩
  | cons first rest ih =>
    rw [hrest] at hs
    obtain ⟨hfirst, hrest'⟩ := forall_mem_cons.mp hs
    have hstep : lm.startStep s .launch =
        some { s with rest, phase := Function.update s.phase first .launched } := by
      simp only [startStep, hrest, findComponent_of_mem hfirst]
    obtain ⟨t, hrun, ht⟩ := ih
      { s with rest, phase := Function.update s.phase first .launched } hrest' rfl
    refine ⟨t, .cons trivial hstep hrun, fun name => ?_⟩
    rw [ht]
    by_cases hname : name = first
    · subst hname
      simp
    · simp [hname]

/-- In every interleaving, a component calls `Start` only when the `Start` of each of its
    dependencies has returned nil. -/
def HonoursDependencies (lm : LifecycleManager) : Prop :=
  ∀ s₀, lm.startWithTimeout = some (.ok s₀) → ∀ actions s, Runs lm.startStep s₀ actions s →
    ∀ name, (lm.startStep s (.start name)).isSome → ∀ dep ∈ lm.deps name,
      s.phase dep = .returned true

/-- **Start and the dependencies.**  They are honoured exactly if there are none. -/
theorem honoursDependencies_iff (hstarted : lm.started = false) (hacyclic : lm.Acyclic)
    (hregistered : lm.DepsRegistered) :
    lm.HonoursDependencies ↔ ∀ name ∈ lm.components, lm.deps name = [] := by
  obtain ⟨order, horder, -, hmem, -⟩ := exists_resolveOrder hacyclic hregistered
  have hstart : lm.startWithTimeout = some (.ok { rest := order }) := by
    rw [startWithTimeout, hstarted, horder]
    rfl
  constructor
  · intro h name hname
    obtain ⟨s, hrun, hs⟩ := exists_launch_all { rest := order } fun name h => (hmem name).mp h
    have hlaunched : ∀ component ∈ lm.components, s.phase component = .launched := by
      intro component hcomponent
      rw [hs, if_pos ((hmem component).mpr hcomponent)]
    have hready : (lm.startStep s (.start name)).isSome := by
      simp only [startStep, if_pos (hlaunched name hname), Option.isSome_some]
    rw [eq_nil_iff_forall_not_mem]
    intro dep hdep
    have hreturned := h _ hstart _ s hrun name hready dep hdep
    rw [hlaunched dep (hregistered name hname dep hdep)] at hreturned
    cases hreturned
  · intro hnone s₀ hs₀ actions s hrun name hready dep hdep
    obtain rfl : { rest := order } = s₀ := by
      rw [hstart] at hs₀
      exact Except.ok.inj (Option.some.inj hs₀)
    have hcomponent : name ∈ lm.components := by
      refine mem_components_of_run hrun (fun _ h => absurd rfl h) name fun hidle => ?_
      simp [startStep, hidle] at hready
    rw [hnone name hcomponent] at hdep
    cases hdep

/-- Two components that depend on nothing. -/
def independent : LifecycleManager :=
  (({} : LifecycleManager).register (ascii "a") []).register (ascii "b") []

theorem deps_independent : independent.deps x = [] := by
  simp [independent, deps_register, deps_new]

theorem honoursDependencies_independent : independent.HonoursDependencies := by
  refine (honoursDependencies_iff rfl (acyclic_of_rank (fun _ => 0) ?_) ?_).mpr ?_
  · intro x dep hdep
    simp [deps_independent] at hdep
  · intro x _ dep hdep
    simp [deps_independent] at hdep
  · exact fun x _ => deps_independent x

/-- A component `a`, and `b`, which depends on it. -/
def chain : LifecycleManager :=
  (({} : LifecycleManager).register (ascii "a") []).register (ascii "b") [ascii "a"]

theorem acyclic_chain : chain.Acyclic := by
  apply acyclic_of_rank fun name => if name = ascii "b" then 1 else 0
  intro name dep hdep
  simp only [chain, deps_register, deps_new] at hdep
  by_cases hname : name = ascii "b"
  · rw [if_pos ⟨hname, by decide⟩, mem_singleton] at hdep
    rw [hdep, hname]
    decide
  · rw [if_neg fun h => hname h.1] at hdep
    simp at hdep

/-- The names in the chain are distinct, its dependency is registered, and there is no cycle;
    still, `b` calls `Start` when `a` has not even begun. -/
theorem chain_starts_out_of_order :
    chain.components.Nodup ∧ chain.DepsRegistered ∧ chain.Acyclic ∧
      ∃ s₀ s, chain.startWithTimeout = some (.ok s₀) ∧
        Runs chain.startStep s₀ [.launch, .launch] s ∧
        (chain.startStep s (.start (ascii "b"))).isSome ∧ ascii "a" ∈ chain.deps (ascii "b") ∧
        s.phase (ascii "a") = .launched := by
  refine ⟨by decide, ?_, acyclic_chain, _, _, rfl, runs_of_exec rfl, rfl, by decide, rfl⟩
  unfold DepsRegistered
  decide

end LifecycleManager

end GridKV
