import OrthoCache.LoopOutcomes

/-!
A whole run, loop by loop. The loops that a run visits stand in the module from the start, each is
accepted or not as it stands there, and at the end every accepted loop has left its mark: its
condition is replaced, its computation has grown, and so has its body if a product was redirected.
-/

namespace OrthoCache.VisitedLoops
open Foundation.Hlo Arrays StreamCompactPass EmittedCompaction StreamCompactFrame MatchedLoops
open EditedComputations LoopOutcomes

/-! ### Sites -/

section Sites

def Visits (executionThreads : List String) (m : HloModule) (c : ℕ) : Prop :=
  ∃ computation, m.computations[c]? = some computation ∧ computation.isFusion = false ∧
    (executionThreads = [] ∨ computation.executionThread ∈ executionThreads)

/-- The loops of a computation, unless it is a fusion. -/
def whileLoops (m : HloModule) (c : ℕ) : List (ℕ × ℕ) :=
  match m.computations[c]? with
  | none => []
  | some computation =>
    if computation.isFusion then [] else (positionsOf computation isWhile).map (Prod.mk c)

def selectedComputations (executionThreads : List String) (m : HloModule) : List ℕ :=
  (List.range m.computations.length).filter fun c =>
    m.computations[c]?.any fun computation =>
      executionThreads.isEmpty || executionThreads.contains computation.executionThread

def loopSites (executionThreads : List String) (m : HloModule) : List (ℕ × ℕ) :=
  (selectedComputations executionThreads m).flatMap (whileLoops m)

theorem mem_selectedComputations {executionThreads : List String} {m : HloModule} {c : ℕ} :
    c ∈ selectedComputations executionThreads m ↔ ∃ computation,
      m.computations[c]? = some computation ∧
        (executionThreads = [] ∨ computation.executionThread ∈ executionThreads) := by
  unfold selectedComputations
  rw [List.mem_filter, List.mem_range, Option.any_eq_true]
  simp only [Bool.or_eq_true, List.isEmpty_iff, List.contains_iff_mem]
  constructor
  · rintro ⟨_, selected⟩
    exact selected
  · rintro ⟨computation, there, selected⟩
    exact ⟨(List.getElem?_eq_some_iff.mp there).1, computation, there, selected⟩

theorem mem_whileLoops {m : HloModule} {c d id : ℕ} : (d, id) ∈ whileLoops m c ↔ d = c ∧
    ∃ computation instruction, m.computations[c]? = some computation ∧
      computation.isFusion = false ∧ m.instruction c id = some instruction ∧
      isWhile instruction = true := by
  unfold whileLoops
  cases there : m.computations[c]? with
  | none => simp
  | some computation =>
    cases fusion : computation.isFusion with
    | true => simp [fusion]
    | false =>
      simp only [fusion, Bool.false_eq_true, if_false, List.mem_map, Prod.mk.injEq,
        mem_positionsOf, instruction_eq there, Option.some.injEq]
      constructor
      · rintro ⟨_, ⟨instruction, here, loops⟩, rfl, rfl⟩
        exact ⟨rfl, computation, instruction, rfl, fusion, here, loops⟩
      · rintro ⟨rfl, _, instruction, rfl, _, here, loops⟩
        exact ⟨id, ⟨instruction, here, loops⟩, rfl, rfl⟩

theorem mem_loopSites {executionThreads : List String} {m : HloModule} {c id : ℕ} :
    (c, id) ∈ loopSites executionThreads m ↔ Visits executionThreads m c ∧
      ∃ instruction, m.instruction c id = some instruction ∧ isWhile instruction = true := by
  unfold loopSites
  rw [List.mem_flatMap]
  constructor
  · rintro ⟨d, selected, inside⟩
    obtain ⟨rfl, computation, instruction, there, fusion, here, loops⟩ := mem_whileLoops.mp inside
    obtain ⟨computation', there', threads⟩ := mem_selectedComputations.mp selected
    obtain rfl := Option.some.inj (there.symm.trans there')
    exact ⟨⟨computation, there, fusion, threads⟩, instruction, here, loops⟩
  · rintro ⟨⟨computation, there, fusion, threads⟩, instruction, here, loops⟩
    exact ⟨c, mem_selectedComputations.mpr ⟨computation, there, threads⟩,
      mem_whileLoops.mpr ⟨rfl, computation, instruction, there, fusion, here, loops⟩⟩

theorem loopSites_nodup (executionThreads : List String) (m : HloModule) :
    (loopSites executionThreads m).Nodup := by
  unfold loopSites
  rw [List.nodup_flatMap]
  constructor
  · intro c _
    unfold whileLoops
    split
    · exact List.nodup_nil
    · split
      · exact List.nodup_nil
      · exact (List.nodup_range.filter _).map (Prod.mk_right_injective c)
  · refine (List.nodup_range.filter _).imp (fun distinct => ?_)
    rintro ⟨c, id⟩ left right
    exact distinct ((mem_whileLoops.mp left).1.symm.trans (mem_whileLoops.mp right).1)

end Sites

/-! ### The run -/

theorem mem_recorded {changed : List (ℕ × AttentionLoopMatch)} {c d : ℕ}
    {result : Option AttentionLoopMatch} {loop : AttentionLoopMatch} :
    (d, loop) ∈ recorded changed c result ↔ (d, loop) ∈ changed ∨ d = c ∧ result = some loop := by
  cases result with
  | none => simp [recorded]
  | some new => simp [recorded, eq_comm]

section Run
variable (compatible : Shape → Shape → Bool) (blockSize : ℕ) (m : HloModule)

/-- Working on the loop at `site` edits computation `f`. -/
def Touches (f : ℕ) (site : ℕ × ℕ) : Prop :=
  ∃ loop reading shapes trips, Recognized blockSize m site.1 site.2 loop reading shapes trips ∧
    (f = site.1 ∨ f = reading.body ∧ Redirects compatible m loop f shapes)

def Rewritable (loop : AttentionLoopMatch) (reading : LoopReading) (shapes : List Shape) : Prop :=
  compatible (.tuple shapes) (.tuple (shapes ++ [s32Scalar])) = true ∧
    ∃ body, m.computations[reading.body]? = some body ∧
      (loopVarGte body loop.loopVarIndex).isSome = true

/-- What a run has done when it has visited the loops at `sites`. -/
structure Visited (sites : Set (ℕ × ℕ)) (changed : List (ℕ × AttentionLoopMatch)) (M : HloModule) :
    Prop where
  framed : Framed m.computations.length
    {site | site ∈ sites ∧ matchAttentionLoop blockSize m site.1 site.2 ≠ none}
    {f | ∃ site ∈ sites, Touches compatible blockSize m f site} m M
  grows : ∀ f site, site ∈ sites → Touches compatible blockSize m f site → size m f < size M f
  conditions : ∀ c whileInst loop reading shapes trips, (c, whileInst) ∈ sites →
    Recognized blockSize m c whileInst loop reading shapes trips →
    ConditionSet m.computations.length M c loop reading shapes
  idle : (∀ site ∈ sites, matchAttentionLoop blockSize m site.1 site.2 = none) → M = m
  counted : (∀ shape, compatible shape shape = true) → ∀ c loop, (c, loop) ∈ changed ↔
    (c, loop.whileInst) ∈ sites ∧ ∃ reading shapes trips,
      Recognized blockSize m c loop.whileInst loop reading shapes trips ∧
      Rewritable compatible m loop reading shapes

variable {compatible blockSize m}

theorem visited_start : Visited compatible blockSize m ∅ [] m where
  framed := .refl
  grows := nofun
  conditions := nofun
  idle _ := rfl
  counted := by simp

variable {sites : Set (ℕ × ℕ)} {changed : List (ℕ × AttentionLoopMatch)} {M : HloModule}
  (visited : Visited compatible blockSize m sites changed M) {c whileInst : ℕ}

theorem unmarked (unvisited : (c, whileInst) ∉ sites) : (c, whileInst) ∉
    {site | site ∈ sites ∧ matchAttentionLoop blockSize m site.1 site.2 ≠ none} :=
  fun member => unvisited member.1

include visited

theorem Visited.framed_insert : Framed m.computations.length
    {site | site ∈ insert (c, whileInst) sites ∧
      matchAttentionLoop blockSize m site.1 site.2 ≠ none}
    {f | ∃ site ∈ insert (c, whileInst) sites, Touches compatible blockSize m f site} m M := by
  have inserted := Set.subset_insert (c, whileInst) sites
  refine visited.framed.mono (fun site member => ⟨inserted member.1, member.2⟩) ?_
  rintro f ⟨site, member, touches⟩
  exact ⟨site, inserted member, touches⟩

theorem Visited.reject (rejected : matchAttentionLoop blockSize m c whileInst = none) :
    Visited compatible blockSize m (insert (c, whileInst) sites) changed M := by
  have nothing {loop : AttentionLoopMatch} {reading : LoopReading} {shapes : List Shape} {trips : ℤ}
      (recognized : Recognized blockSize m c whileInst loop reading shapes trips) : False := by
    cases rejected.symm.trans recognized.accepted
  exact
    { framed := visited.framed_insert
      grows := by
        rintro f site (rfl | before) touches
        · obtain ⟨loop, reading, shapes, trips, recognized, _⟩ := touches
          exact (nothing recognized).elim
        · exact visited.grows f site before touches
      conditions := by
        rintro d id loop reading shapes trips (same | before) recognized
        · obtain ⟨rfl, rfl⟩ := Prod.mk.inj same
          exact (nothing recognized).elim
        · exact visited.conditions d id loop reading shapes trips before recognized
      idle := fun all => visited.idle (fun site member => all site (Set.mem_insert_of_mem _ member))
      counted := fun reflexive d loop => by
        rw [visited.counted reflexive d loop, Set.mem_insert_iff]
        refine ⟨fun ⟨before, rest⟩ => ⟨.inr before, rest⟩, ?_⟩
        rintro ⟨same | before, reading, shapes, trips, recognized, rewritable⟩
        · obtain ⟨rfl, rfl⟩ := Prod.mk.inj same
          exact (nothing recognized).elim
        · exact ⟨before, reading, shapes, trips, recognized, rewritable⟩ }

theorem Visited.redirects_iff (loop : AttentionLoopMatch) {f : ℕ} (shapes : List Shape)
    (inside : f < m.computations.length)
    (untouched : ¬∃ site ∈ sites, Touches compatible blockSize m f site) :
    Redirects compatible M loop f shapes ↔ Redirects compatible m loop f shapes := by
  unfold Redirects
  rw [visited.framed.unchanged inside untouched]

section Accepted
variable (verified : m.Verified) (unvisited : (c, whileInst) ∉ sites)
include verified unvisited

/-- An accepted loop leaves its mark on the module as it stands. -/
theorem Visited.outcome {loop : AttentionLoopMatch} {reading : LoopReading} {shapes : List Shape}
    {trips : ℤ} (recognized : Recognized blockSize m c whileInst loop reading shapes trips) :
    Outcome compatible m.computations.length M c loop reading shapes
      (processLoop compatible blockSize c whileInst M).2 :=
  processLoop_outcome compatible verified recognized visited.framed (unmarked unvisited)

variable {loop : AttentionLoopMatch} {reading : LoopReading} {shapes : List Shape} {trips : ℤ}
  (recognized : Recognized blockSize m c whileInst loop reading shapes trips)
include recognized

theorem Visited.accept_framed : Framed m.computations.length
    {site | site ∈ insert (c, whileInst) sites ∧
      matchAttentionLoop blockSize m site.1 site.2 ≠ none}
    {f | ∃ site ∈ insert (c, whileInst) sites, Touches compatible blockSize m f site} m
    (processLoop compatible blockSize c whileInst M).2 := by
  have outcome := visited.outcome verified unvisited recognized
  refine visited.framed_insert.trans (outcome.framed.mono ?_ ?_)
  · rintro _ rfl
    rw [recognized.while_eq]
    exact ⟨Set.mem_insert _ _, by rw [recognized.accepted]; nofun⟩
  · rintro f (rfl | ⟨rfl, redirects⟩)
    · exact ⟨_, Set.mem_insert _ _, loop, reading, shapes, trips, recognized, .inl rfl⟩
    · by_cases earlier : ∃ site ∈ sites, Touches compatible blockSize m reading.body site
      · obtain ⟨site, member, touches⟩ := earlier
        exact ⟨site, Set.mem_insert_of_mem _ member, touches⟩
      · obtain ⟨body, bodyFound⟩ := body_found verified recognized
        have before := (visited.redirects_iff loop shapes
          (List.getElem?_eq_some_iff.mp bodyFound).1 earlier).mp redirects
        exact ⟨_, Set.mem_insert _ _, loop, reading, shapes, trips, recognized,
          .inr ⟨rfl, before⟩⟩

theorem Visited.accept_grows (f : ℕ) (site : ℕ × ℕ) (member : site ∈ insert (c, whileInst) sites)
    (touches : Touches compatible blockSize m f site) :
    size m f < size (processLoop compatible blockSize c whileInst M).2 f := by
  by_cases earlier : ∃ site ∈ sites, Touches compatible blockSize m f site
  · obtain ⟨site', member', touches'⟩ := earlier
    exact (visited.grows f site' member' touches').trans_le
      ((visited.outcome verified unvisited recognized).framed.size_le f)
  · rcases member with rfl | before
    · obtain ⟨loop', reading', shapes', trips', recognized', here⟩ := touches
      have outcome := visited.outcome verified unvisited recognized'
      refine (visited.framed.size_le f).trans_lt ?_
      rcases here with rfl | ⟨rfl, redirects⟩
      · exact outcome.grows
      · have ⟨_, body, bodyFound, _⟩ := redirects
        exact outcome.bodyGrows ((visited.redirects_iff loop' shapes'
          (List.getElem?_eq_some_iff.mp bodyFound).1 earlier).mpr redirects)
    · exact absurd ⟨site, before, touches⟩ earlier

theorem Visited.accept_conditions (d id : ℕ) (loop' : AttentionLoopMatch) (reading' : LoopReading)
    (shapes' : List Shape) (trips' : ℤ) (member : (d, id) ∈ insert (c, whileInst) sites)
    (recognized' : Recognized blockSize m d id loop' reading' shapes' trips') :
    ConditionSet m.computations.length (processLoop compatible blockSize c whileInst M).2 d loop'
      reading' shapes' := by
  rcases member with same | before
  · obtain ⟨rfl, rfl⟩ := Prod.mk.inj same
    exact (visited.outcome verified unvisited recognized').condition
  · have outcome := visited.outcome verified unvisited recognized
    refine (visited.conditions d id loop' reading' shapes' trips' before recognized').kept
      outcome.framed.toKept (fun again => unvisited ?_)
    rw [recognized'.while_eq, recognized.while_eq] at again
    exact Set.mem_singleton_iff.mp again ▸ before

theorem Visited.accept_counted (reflexive : ∀ shape, compatible shape shape = true) (d : ℕ)
    (loop' : AttentionLoopMatch) :
    (d, loop') ∈ recorded changed c (processLoop compatible blockSize c whileInst M).1 ↔
      (d, loop'.whileInst) ∈ insert (c, whileInst) sites ∧ ∃ reading shapes trips,
        Recognized blockSize m d loop'.whileInst loop' reading shapes trips ∧
        Rewritable compatible m loop' reading shapes := by
  rw [mem_recorded, visited.counted reflexive d loop', Set.mem_insert_iff]
  constructor
  · rintro (⟨before, rest⟩ | ⟨rfl, counted⟩)
    · exact ⟨.inr before, rest⟩
    · obtain ⟨rfl, rewritable⟩ := (processLoop_counted compatible verified recognized visited.framed
        (unmarked unvisited) reflexive loop').mp counted
      have at_while := recognized.while_eq
      subst at_while
      exact ⟨.inl rfl, reading, shapes, trips, recognized, rewritable⟩
  · rintro ⟨same | before, reading', shapes', trips', recognized', rewritable⟩
    · obtain ⟨rfl, rfl⟩ := Prod.mk.inj same
      exact .inr ⟨rfl, (processLoop_counted compatible verified recognized' visited.framed
        (unmarked unvisited) reflexive loop').mpr ⟨rfl, rewritable⟩⟩
    · exact .inl ⟨before, reading', shapes', trips', recognized', rewritable⟩

theorem Visited.accept : Visited compatible blockSize m (insert (c, whileInst) sites)
    (recorded changed c (processLoop compatible blockSize c whileInst M).1)
    (processLoop compatible blockSize c whileInst M).2 where
  framed := visited.accept_framed verified unvisited recognized
  grows := visited.accept_grows verified unvisited recognized
  conditions := visited.accept_conditions verified unvisited recognized
  idle all := by
    cases recognized.accepted.symm.trans (all _ (Set.mem_insert _ _))
  counted := visited.accept_counted verified unvisited recognized

end Accepted

theorem Visited.step (verified : m.Verified) (unvisited : (c, whileInst) ∉ sites) :
    Visited compatible blockSize m (insert (c, whileInst) sites)
      (recorded changed c (processLoop compatible blockSize c whileInst M).1)
      (processLoop compatible blockSize c whileInst M).2 := by
  cases accepted : matchAttentionLoop blockSize m c whileInst with
  | none =>
    have unchanged : processLoop compatible blockSize c whileInst M = (none, M) := by
      unfold processLoop
      rw [get_bind, matchAttentionLoop_framed visited.framed verified (unmarked unvisited), accepted]
      rfl
    rw [unchanged]
    exact visited.reject accepted
  | some loop =>
    obtain ⟨reading, shapes, trips, recognized⟩ :=
      (matchAttentionLoop_eq_some_iff blockSize m c whileInst loop).mp accepted
    exact visited.accept verified unvisited recognized

end Run

/-! ### All loops -/

section All
variable {compatible : Shape → Shape → Bool} {blockSize : ℕ} {m : HloModule} (verified : m.Verified)
  (executionThreads : List String)

def VisitedBefore (compatible : Shape → Shape → Bool) (blockSize : ℕ) (m : HloModule)
    (executionThreads : List String) (remaining : List (ℕ × ℕ))
    (changed : List (ℕ × AttentionLoopMatch)) (M : HloModule) : Prop :=
  ∃ front, front ++ remaining = loopSites executionThreads m ∧
    Visited compatible blockSize m {site | site ∈ front} changed M

include verified

theorem VisitedBefore.step {c whileInst : ℕ} {remaining : List (ℕ × ℕ)}
    {changed : List (ℕ × AttentionLoopMatch)} {M : HloModule}
    (before : VisitedBefore compatible blockSize m executionThreads ((c, whileInst) :: remaining)
      changed M) :
    VisitedBefore compatible blockSize m executionThreads remaining
      (recorded changed c (processLoop compatible blockSize c whileInst M).1)
      (processLoop compatible blockSize c whileInst M).2 := by
  obtain ⟨front, sites, visited⟩ := before
  have distinct := loopSites_nodup executionThreads m
  rw [← sites] at distinct
  have unvisited : (c, whileInst) ∉ {site | site ∈ front} := fun member =>
    List.disjoint_of_nodup_append distinct member List.mem_cons_self
  have after := visited.step verified unvisited
  refine ⟨front ++ [(c, whileInst)], by rw [List.append_assoc, ← sites]; rfl, ?_⟩
  have same : {site | site ∈ front ++ [(c, whileInst)]} =
      insert (c, whileInst) {site | site ∈ front} := by
    ext site
    rw [Set.mem_ofPred_eq, List.mem_append, List.mem_singleton, Set.mem_insert_iff, or_comm]
    rfl
  rwa [same]

theorem processComputation_visited (c : ℕ) (later : List ℕ)
    (existing : ∃ computation, m.computations[c]? = some computation)
    {changed : List (ℕ × AttentionLoopMatch)} {M : HloModule}
    (before : VisitedBefore compatible blockSize m executionThreads
      ((c :: later).flatMap (whileLoops m)) changed M) :
    VisitedBefore compatible blockSize m executionThreads (later.flatMap (whileLoops m))
      (processComputation compatible blockSize changed c M).1
      (processComputation compatible blockSize changed c M).2 := by
  obtain ⟨old, found⟩ := existing
  have ⟨front, sites, visited⟩ := before
  obtain ⟨new, after, extended, _⟩ := visited.framed.computation c old found
  rw [List.flatMap_cons] at before
  unfold processComputation
  rw [get_bind, after]
  cases fusion : old.isFusion with
  | true =>
    have none_here : whileLoops m c = [] := by simp [whileLoops, found, fusion]
    rw [none_here] at before
    simp only [extended.isFusion, fusion, if_true]
    exact before
  | false =>
    have loops : whileLoops m c = (positionsOf old isWhile).map (Prod.mk c) := by
      simp [whileLoops, found, fusion]
    have positions : positionsOf new isWhile = positionsOf old isWhile :=
      positionsOf_framed visited.framed found after isWhile (fun _ _ _ edited => edited.isWhile_eq)
        (fun _ plain => plain.noLoop)
    rw [loops] at before
    simp only [extended.isFusion, fusion, Bool.false_eq_true, if_false, positions]
    exact foldlM_invariant _ (fun ids changed M => VisitedBefore compatible blockSize m
        executionThreads (ids.map (Prod.mk c) ++ later.flatMap (whileLoops m)) changed M)
      (fun id ids changed M inside => by
        rw [recorded_step _ changed c M _ rfl (fun _ => rfl)]
        exact inside.step verified executionThreads)
      (positionsOf old isWhile) changed M before

theorem runLoops_visited : Visited compatible blockSize m
    {site | site ∈ loopSites executionThreads m}
    (runLoops compatible blockSize executionThreads m).1
    (runLoops compatible blockSize executionThreads m).2 := by
  have existing (c : ℕ) (member : c ∈ selectedComputations executionThreads m) :
      ∃ computation, m.computations[c]? = some computation := by
    obtain ⟨computation, there, _⟩ := mem_selectedComputations.mp member
    exact ⟨computation, there⟩
  have start : VisitedBefore compatible blockSize m executionThreads
      ((selectedComputations executionThreads m).flatMap (whileLoops m)) [] m :=
    ⟨[], rfl, by simpa using visited_start⟩
  obtain ⟨_, front, sites, visited⟩ := foldlM_invariant (processComputation compatible blockSize)
    (fun later changed M => (∀ c ∈ later, ∃ computation, m.computations[c]? = some computation) ∧
      VisitedBefore compatible blockSize m executionThreads (later.flatMap (whileLoops m)) changed M)
    (fun c later changed M before => ⟨fun d member => before.1 d (List.mem_cons_of_mem c member),
      processComputation_visited verified executionThreads c later (before.1 c List.mem_cons_self)
        before.2⟩)
    (selectedComputations executionThreads m) [] m ⟨existing, start⟩
  rw [List.flatMap_nil, List.append_nil] at sites
  rw [sites] at visited
  exact visited

end All

/-! ### Accepted loops -/

/-- A run visits the loop and the matcher accepts it. -/
structure Accepts (blockSize : ℕ) (executionThreads : List String) (m : HloModule) (c : ℕ)
    (loop : AttentionLoopMatch) : Prop where
  visits : Visits executionThreads m c
  matched : matchAttentionLoop blockSize m c loop.whileInst = some loop

section Accepted
variable {compatible : Shape → Shape → Bool} {blockSize : ℕ} {executionThreads : List String}
  {m : HloModule} (verified : m.Verified)

theorem run_module (compatible : Shape → Shape → Bool) (blockSize : ℕ)
    (executionThreads : List String) (m : HloModule) :
    (run compatible blockSize executionThreads m).2 =
      (runLoops compatible blockSize executionThreads m).2 := rfl

theorem Accepts.recognized {c : ℕ} {loop : AttentionLoopMatch}
    (accepts : Accepts blockSize executionThreads m c loop) :
    (c, loop.whileInst) ∈ loopSites executionThreads m ∧ ∃ reading shapes trips,
      Recognized blockSize m c loop.whileInst loop reading shapes trips := by
  obtain ⟨reading, shapes, trips, recognized⟩ :=
    (matchAttentionLoop_eq_some_iff blockSize m c loop.whileInst loop).mp accepts.matched
  have loops : isWhile reading.whileInst = true := by rw [isWhile, recognized.loop_opcode]
  exact ⟨mem_loopSites.mpr ⟨accepts.visits, _, recognized.loop_found, loops⟩, reading, shapes, trips,
    recognized⟩

theorem accepts_of_site {site : ℕ × ℕ} (member : site ∈ loopSites executionThreads m)
    {loop : AttentionLoopMatch}
    (matched : matchAttentionLoop blockSize m site.1 site.2 = some loop) :
    loop.whileInst = site.2 ∧ Accepts blockSize executionThreads m site.1 loop := by
  have same := (matched_of_match blockSize m site.1 site.2 loop matched).1
  exact ⟨same, (mem_loopSites.mp member).1, same ▸ matched⟩

include verified

/-- Without an accepted loop the pass leaves the module as it is. -/
theorem runLoops_idle (rejects : ¬∃ c loop, Accepts blockSize executionThreads m c loop) :
    (runLoops compatible blockSize executionThreads m).2 = m := by
  refine (runLoops_visited verified executionThreads).idle (fun site member => ?_)
  cases matched : matchAttentionLoop blockSize m site.1 site.2 with
  | none => rfl
  | some loop => exact absurd ⟨site.1, loop, (accepts_of_site member matched).2⟩ rejects

end Accepted

end OrthoCache.VisitedLoops
