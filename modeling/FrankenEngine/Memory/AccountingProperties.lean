import FrankenEngine.Library.History
import FrankenEngine.Library.Result
import FrankenEngine.Memory.Collector
import Mathlib.Algebra.Order.BigOperators.Group.List

/-!
# Accounting

What the heaps say they hold is what the domain was charged. A heap never says
to hold less than its objects take, so no collection gives back more than was
charged, and saturating arithmetic never saturates.
-/

set_option autoImplicit false

namespace FrankenEngine.Memory

open Library GcCollector ExtensionHeap OrderedMap DomainRegistry

namespace ExtensionHeap

def objectBytes (objects : OrderedMap GcObjectId GcObject) : Nat :=
  (objects.values.map fun object => object.sizeBytes.toNat).sum

/-- The objects take no more than what the heap says to hold. The last identifier is given out more
than once, so they can take less. -/
def Covered (heap : ExtensionHeap) : Prop := objectBytes heap.objects ≤ heap.totalBytes.toNat

variable {heap : ExtensionHeap}

theorem covered_new (extensionId : String) : (new extensionId).Covered := Nat.zero_le _

theorem objectBytes_insert (objects : OrderedMap GcObjectId GcObject) (id : GcObjectId)
    (object : GcObject) : objectBytes (objects.insert id object) +
        (objects.get? id).elim 0 (fun held => held.sizeBytes.toNat) =
      objectBytes objects + object.sizeBytes.toNat :=
  objects.sum_values_insert _ id object

theorem toNat_totalBytes_allocate {sizeBytes : UInt64}
    (room : heap.totalBytes.toNat + sizeBytes.toNat < 2 ^ 64) :
    (heap.allocate sizeBytes).1.totalBytes.toNat = heap.totalBytes.toNat + sizeBytes.toNat := by
  rw [allocate, toNat_saturatingAdd]
  omega

theorem Covered.allocate (covered : heap.Covered) {sizeBytes : UInt64}
    (room : heap.totalBytes.toNat + sizeBytes.toNat < 2 ^ 64) :
    (heap.allocate sizeBytes).1.Covered := by
  rw [Covered, toNat_totalBytes_allocate room]
  have inserted := objectBytes_insert heap.objects ⟨heap.nextId⟩
    { id := ⟨heap.nextId⟩, sizeBytes, references := .empty, rooted := true }
  have before : objectBytes heap.objects ≤ heap.totalBytes.toNat := covered
  unfold ExtensionHeap.allocate
  dsimp only at inserted ⊢
  omega

theorem totalBytes_update (id : GcObjectId) (change : GcObject → GcObject) :
    (heap.update id change).1.totalBytes = heap.totalBytes := by
  unfold update
  split <;> rfl

theorem Covered.update (covered : heap.Covered) (id : GcObjectId) {change : GcObject → GcObject}
    (sized : ∀ object, (change object).sizeBytes = object.sizeBytes) :
    (heap.update id change).1.Covered := by
  unfold ExtensionHeap.update
  split
  · exact covered
  next object found =>
    have inserted := objectBytes_insert heap.objects id (change object)
    rw [found, Option.elim_some, sized] at inserted
    have before : objectBytes heap.objects ≤ heap.totalBytes.toNat := covered
    exact (Nat.add_right_cancel inserted).trans_le before

theorem update_of_error {id : GcObjectId} {change : GcObject → GcObject} {error : GcError}
    (failed : (heap.update id change).2 = .error error) : (heap.update id change).1 = heap := by
  unfold update at failed ⊢
  split at failed
  · rfl
  · cases failed

theorem toNat_foldl_sizes (objects : List GcObject) (start : UInt64)
    (room : start.toNat + (objects.map fun object => object.sizeBytes.toNat).sum < 2 ^ 64) :
    (objects.foldl (fun sum object => sum + object.sizeBytes) start).toNat =
      start.toNat + (objects.map fun object => object.sizeBytes.toNat).sum := by
  induction objects generalizing start with
  | nil => rfl
  | cons object rest ih =>
    rw [List.map_cons, List.sum_cons, ← Nat.add_assoc] at room ⊢
    have added : (start + object.sizeBytes).toNat = start.toNat + object.sizeBytes.toNat := by
      rw [UInt64.toNat_add]
      exact Nat.mod_eq_of_lt (by omega)
    rw [List.foldl_cons, ih _ (by rw [added]; exact room), added]

theorem Covered.collectMarkSweep (covered : heap.Covered) : heap.collectMarkSweep.1.Covered ∧
      heap.collectMarkSweep.1.totalBytes.toNat + heap.collectMarkSweep.2.bytesReclaimed.toNat =
        heap.totalBytes.toNat := by
  have parts := heap.objects.sum_values_retain (fun id _ => decide (id ∈ heap.markFromRoots.keys))
    fun object => object.sizeBytes.toNat
  simp only [← decide_not] at parts
  have before : objectBytes heap.objects ≤ heap.totalBytes.toNat := covered
  have bounded := UInt64.toNat_lt heap.totalBytes
  have reclaimed := toNat_foldl_sizes
    (heap.objects.retain fun id _ => id ∉ heap.markFromRoots.keys).values 0 (by
      rw [objectBytes] at before
      rw [UInt64.toNat_zero]
      omega)
  rw [UInt64.toNat_zero, Nat.zero_add] at reclaimed
  unfold objectBytes at before
  unfold ExtensionHeap.collectMarkSweep Covered objectBytes
  dsimp only
  rw [toNat_saturatingSub, reclaimed]
  omega

end ExtensionHeap

theorem DomainBudget.toNat_tryReserve {budget reserved : DomainBudget} {bytes : UInt64}
    (accepted : budget.tryReserve bytes = .ok reserved) :
    reserved.maxBytes = budget.maxBytes ∧ reserved.usedBytes ≤ reserved.maxBytes ∧
      reserved.usedBytes.toNat = budget.usedBytes.toNat + bytes.toNat := by
  unfold tryReserve at accepted
  split at accepted
  next room =>
    dsimp only at accepted
    split at accepted
    · cases accepted
    next fits =>
      cases accepted
      refine ⟨rfl, UInt64.not_lt.mp fits, ?_⟩
      exact Nat.mod_eq_of_lt room
  · cases accepted

def GcCollector.heldBytes (collector : GcCollector) : Nat :=
  (collector.heaps.values.map fun heap => heap.totalBytes.toNat).sum

/-- The domain of the heaps is charged what they hold, within its limit. -/
structure Accounted (collector : GcCollector) (registry : DomainRegistry) : Prop where
  charged : ∀ config, registry.domains.get? .extensionHeap = some config →
    config.budget.usedBytes.toNat = collector.heldBytes ∧
      config.budget.usedBytes ≤ config.budget.maxBytes
  unregistered : registry.domains.get? .extensionHeap = none → collector.heldBytes = 0
  covered : ∀ extensionId heap, collector.heaps.get? extensionId = some heap → heap.Covered

namespace GcCollector

variable {collector : GcCollector} {registry : DomainRegistry} {extensionId : String}

theorem heldBytes_putHeap (collector : GcCollector) (extensionId : String) (heap : ExtensionHeap) :
    (collector.putHeap extensionId heap).heldBytes +
        (collector.heaps.get? extensionId).elim 0 (fun held => held.totalBytes.toNat) =
      collector.heldBytes + heap.totalBytes.toNat :=
  collector.heaps.sum_values_insert _ extensionId heap

variable {heap : ExtensionHeap}

theorem totalBytes_le_heldBytes (found : collector.heaps.get? extensionId = some heap) :
    heap.totalBytes.toNat ≤ collector.heldBytes :=
  List.le_sum_of_mem (List.mem_map_of_mem (mem_values_of_get? found))

theorem putHeap_of_get? (found : collector.heaps.get? extensionId = some heap) :
    collector.putHeap extensionId heap = collector := by
  rw [putHeap, insert_of_get? found]

theorem covered_putHeap
    (covered : ∀ other heap, collector.heaps.get? other = some heap → heap.Covered)
    (own : heap.Covered) :
    ∀ other held, (collector.putHeap extensionId heap).heaps.get? other = some held →
      held.Covered :=
  forall_get?_insert covered own

theorem rootInHeap_fst (collector : GcCollector) (extensionId : String) (id : GcObjectId) :
    (collector.rootInHeap extensionId id).1 =
      (collector.onHeap extensionId fun heap => heap.root id).1 := by
  unfold rootInHeap onHeap
  cases collector.heaps.get? extensionId <;> rfl

theorem onHeap_of_error {id : GcObjectId} {change : GcObject → GcObject} {error : GcError}
    (failed : (collector.onHeap extensionId fun heap => heap.update id change).2 = .error error) :
    (collector.onHeap extensionId fun heap => heap.update id change).1 = collector := by
  unfold onHeap at failed ⊢
  cases found : collector.heaps.get? extensionId with
  | none => rfl
  | some heap =>
    rw [found] at failed
    exact (congrArg _ (update_of_error failed)).trans (putHeap_of_get? found)

theorem allocateTracked_cases (collector : GcCollector) (extensionId : String) (sizeBytes : UInt64)
    (registry : DomainRegistry) :
    (∃ error, collector.allocateTracked extensionId sizeBytes registry =
      ((collector, registry), .error error)) ∨
    ∃ heap config budget seq, collector.heaps.get? extensionId = some heap ∧
      registry.domains.get? .extensionHeap = some config ∧
      config.budget.tryReserve sizeBytes = .ok budget ∧
      collector.allocateTracked extensionId sizeBytes registry =
        ((collector.putHeap extensionId (heap.allocate sizeBytes).1,
          { domains := registry.domains.insert .extensionHeap { config with budget }
            allocationSequence := seq }), .ok ((heap.allocate sizeBytes).2, seq)) := by
  unfold allocateTracked DomainRegistry.allocate allocate
  cases present : collector.heaps.get? extensionId with
  | none => exact .inl ⟨_, rfl⟩
  | some heap =>
    cases registered : registry.domains.get? .extensionHeap with
    | none => exact .inl ⟨_, rfl⟩
    | some config =>
      cases reserved : config.budget.tryReserve sizeBytes with
      | error error => exact .inl ⟨_, by simp [reserved]; rfl⟩
      | ok budget => exact .inr ⟨heap, config, budget, _, rfl, rfl, reserved, by simp [reserved]; rfl⟩

theorem release_zero (budget : DomainBudget) : budget.release 0 = budget := by
  unfold DomainBudget.release saturatingSub
  rw [if_pos (UInt64.zero_le), UInt64.sub_zero]

theorem collectTracked_cases (collector : GcCollector) (extensionId : String)
    (registry : DomainRegistry) : (∃ error, collector.collectTracked extensionId registry =
      ((collector, registry), .error error)) ∨
    ∃ heap config after afterRegistry event, collector.heaps.get? extensionId = some heap ∧
      registry.domains.get? .extensionHeap = some config ∧
      collector.collectTracked extensionId registry = ((after, afterRegistry), .ok event) ∧
      after.heaps = collector.heaps.insert extensionId heap.collectMarkSweep.1 ∧
      afterRegistry.domains = registry.domains.insert .extensionHeap
        { config with
          budget := config.budget.release heap.collectMarkSweep.2.bytesReclaimed } := by
  unfold collectTracked collect release
  cases present : collector.heaps.get? extensionId with
  | none => exact .inl ⟨_, rfl⟩
  | some heap =>
    cases registered : registry.domains.get? .extensionHeap with
    | none => exact .inl ⟨_, rfl⟩
    | some config =>
      refine .inr ⟨heap, config, ?_⟩
      by_cases reclaimed : 0 < heap.collectMarkSweep.2.bytesReclaimed
      · refine ⟨_, _, _, rfl, rfl, by simp [reclaimed]; exact ⟨⟨rfl, rfl⟩, rfl⟩, ?_, ?_⟩
        · rfl
        · rfl
      · have zero : heap.collectMarkSweep.2.bytesReclaimed = 0 := by
          simpa [UInt64.lt_iff_toNat_lt, ← UInt64.toNat_inj] using reclaimed
        refine ⟨_, _, _, rfl, rfl, by simp [reclaimed]; exact ⟨⟨rfl, rfl⟩, rfl⟩, ?_, ?_⟩
        · rfl
        · rw [zero, release_zero, insert_of_get? registered]

end GcCollector

namespace Accounted

variable {collector : GcCollector} {registry : DomainRegistry}

theorem start (config : GcConfig) : Accounted (.new config) .new where
  charged := nofun
  unregistered _ := rfl
  covered := nofun

variable (accounted : Accounted collector registry)

include accounted

theorem putHeap {extensionId : String} {heap : ExtensionHeap} (own : heap.Covered)
    (same : heap.totalBytes.toNat =
      (collector.heaps.get? extensionId).elim 0 fun held => held.totalBytes.toNat) :
    Accounted (collector.putHeap extensionId heap) registry := by
  have held : (collector.putHeap extensionId heap).heldBytes = collector.heldBytes := by
    have written := collector.heldBytes_putHeap extensionId heap
    omega
  refine ⟨?_, ?_, covered_putHeap accounted.covered own⟩
  · rw [held]
    exact accounted.charged
  · rw [held]
    exact accounted.unregistered

variable (extensionId : String)

theorem registerHeap : Accounted (collector.registerHeap extensionId).1 registry := by
  unfold GcCollector.registerHeap
  split
  · exact accounted
  next fresh =>
    refine accounted.putHeap (covered_new extensionId) ?_
    rw [Option.not_isSome_iff_eq_none.mp fresh]
    rfl

theorem onHeap (id : GcObjectId) (change : GcObject → GcObject)
    (sized : ∀ object, (change object).sizeBytes = object.sizeBytes) :
    Accounted (collector.onHeap extensionId fun heap => heap.update id change).1 registry := by
  unfold GcCollector.onHeap
  split
  · exact accounted
  next heap found =>
    refine accounted.putHeap ((accounted.covered extensionId heap found).update id sized) ?_
    rw [found, totalBytes_update]
    rfl

theorem charge {extensionId : String} {heap updated : ExtensionHeap} {config : DomainConfig}
    {budget : DomainBudget} (found : collector.heaps.get? extensionId = some heap)
    (registered : registry.domains.get? .extensionHeap = some config) (own : updated.Covered)
    (balance : budget.usedBytes.toNat + heap.totalBytes.toNat =
      config.budget.usedBytes.toNat + updated.totalBytes.toNat)
    (within : budget.usedBytes ≤ budget.maxBytes) {after : GcCollector}
    (heaps : after.heaps = collector.heaps.insert extensionId updated)
    {afterRegistry : DomainRegistry}
    (domains : afterRegistry.domains = registry.domains.insert .extensionHeap { config with budget }) :
    Accounted after afterRegistry := by
  have charged := (accounted.charged config registered).1
  have written := collector.heldBytes_putHeap extensionId updated
  rw [found, Option.elim_some] at written
  have held : after.heldBytes = (collector.putHeap extensionId updated).heldBytes := by
    rw [heldBytes, heaps]
    rfl
  refine ⟨?_, ?_, ?_⟩
  · intro current stored
    rw [domains, get?_insert, if_pos rfl] at stored
    cases stored
    exact ⟨by rw [held]; dsimp only; omega, within⟩
  · intro missing
    rw [domains, get?_insert, if_pos rfl] at missing
    cases missing
  · rw [heaps]
    exact covered_putHeap accounted.covered own

theorem allocateTracked (sizeBytes : UInt64) :
    Accounted (collector.allocateTracked extensionId sizeBytes registry).1.1
      (collector.allocateTracked extensionId sizeBytes registry).1.2 := by
  rcases collector.allocateTracked_cases extensionId sizeBytes registry with
    ⟨error, same⟩ | ⟨heap, config, budget, seq, found, registered, reserved, next⟩
  · rw [same]
    exact accounted
  · obtain ⟨-, within, used⟩ := DomainBudget.toNat_tryReserve reserved
    have charged := (accounted.charged config registered).1
    have part := totalBytes_le_heldBytes found
    have bounded := UInt64.toNat_lt budget.usedBytes
    -- The heap holds no more than the domain, which has room for the object.
    have room : heap.totalBytes.toNat + sizeBytes.toNat < 2 ^ 64 := by omega
    rw [next]
    refine accounted.charge found registered
      ((accounted.covered extensionId heap found).allocate room) ?_ within rfl rfl
    rw [toNat_totalBytes_allocate room]
    omega

theorem collectTracked : Accounted (collector.collectTracked extensionId registry).1.1
      (collector.collectTracked extensionId registry).1.2 := by
  rcases collector.collectTracked_cases extensionId registry with
    ⟨error, same⟩ | ⟨heap, config, after, afterRegistry, event, found, registered, next, heaps, domains⟩
  · rw [same]
    exact accounted
  · obtain ⟨own, swept⟩ := (accounted.covered extensionId heap found).collectMarkSweep
    obtain ⟨charged, within⟩ := accounted.charged config registered
    have part := totalBytes_le_heldBytes found
    have released : (config.budget.release heap.collectMarkSweep.2.bytesReclaimed).usedBytes.toNat =
        config.budget.usedBytes.toNat - heap.collectMarkSweep.2.bytesReclaimed.toNat :=
      toNat_saturatingSub _ _
    rw [next]
    refine accounted.charge found registered own ?_ ?_ heaps domains
    · omega
    · rw [UInt64.le_iff_toNat_le] at within ⊢
      exact released.trans_le ((Nat.sub_le _ _).trans within)

theorem registerDomain (domain : AllocationDomain) (lifetime : LifetimeClass) (maxBytes : UInt64) :
    Accounted collector (registry.register domain lifetime maxBytes).1 := by
  unfold register
  split
  · exact accounted
  next fresh =>
    have missing := Option.not_isSome_iff_eq_none.mp fresh
    refine ⟨?_, ?_, accounted.covered⟩
    · intro config stored
      rw [get?_insert] at stored
      split at stored
      next same =>
        cases stored
        rw [← same] at missing
        exact ⟨(accounted.unregistered missing).symm, UInt64.zero_le⟩
      next => exact accounted.charged config stored
    · intro none
      rw [get?_insert] at none
      split at none
      · cases none
      · exact accounted.unregistered none

omit accounted

theorem step {state : GcCollector × DomainRegistry} (accounted : Accounted state.1 state.2)
    (call : Call) : Accounted (step state call).1.1 (step state call).1.2 := by
  cases call with
  | registerDomain => exact accounted.registerDomain _ _ _
  | registerHeap => exact accounted.registerHeap _
  | allocateTracked => exact accounted.allocateTracked _ _
  | addReference | unroot => exact accounted.onHeap _ _ _ fun _ => rfl
  | root extensionId id =>
    have rooted := accounted.onHeap extensionId id (fun object => { object with rooted := true })
      fun _ => rfl
    exact (rootInHeap_fst state.1 extensionId id).symm ▸ rooted
  | collectTracked => exact accounted.collectTracked _

end Accounted

theorem step_of_error {state : GcCollector × DomainRegistry} {call : Call}
    {error : GcError} (failed : (step state call).2 = .error error) :
    (step state call).1 = state := by
  obtain ⟨collector, registry⟩ := state
  cases call with
  | registerDomain domain lifetime maxBytes =>
    unfold step register at failed ⊢
    dsimp only at failed ⊢
    split
    · rfl
    next fresh =>
      rw [if_neg fresh] at failed
      cases failed
  | registerHeap extensionId =>
    unfold step registerHeap at failed ⊢
    dsimp only at failed ⊢
    split
    · rfl
    next fresh =>
      rw [if_neg fresh] at failed
      cases failed
  | allocateTracked extensionId sizeBytes =>
    rcases collector.allocateTracked_cases extensionId sizeBytes registry with
      ⟨_, same⟩ | ⟨_, _, _, _, _, _, _, next⟩
    · rw [step, same]
    · rw [step, next] at failed
      cases failed
  | addReference | unroot =>
    have own := onHeap_of_error (error_of_map failed)
    exact congrArg (·, registry) own
  | root extensionId id =>
    unfold step rootInHeap at failed ⊢
    cases found : collector.heaps.get? extensionId with
    | none => simp only [found]
    | some heap =>
      simp only [found] at failed ⊢
      rw [root, update_of_error (error_of_map failed), putHeap_of_get? found]
  | collectTracked extensionId =>
    rcases collector.collectTracked_cases extensionId registry with
      ⟨_, same⟩ | ⟨_, _, _, _, _, _, _, next, _, _⟩
    · rw [step, same]
    · rw [step, next] at failed
      cases failed

/-- In every run with any number of heaps, the domain of the heaps is charged exactly what they
hold and never more than its limit, and a call that fails changes nothing. -/
theorem tracked_accounting (config : GcConfig) (calls : List GcCollector.Call) :
    let reached := final GcCollector.step (GcCollector.new config, DomainRegistry.new) calls
    (∀ domain, reached.2.domains.get? .extensionHeap = some domain → domain.budget.usedBytes.toNat =
          (reached.1.heaps.values.map fun heap => heap.totalBytes.toNat).sum ∧
        domain.budget.usedBytes ≤ domain.budget.maxBytes) ∧
    ∀ call error, (GcCollector.step reached call).2 = .error error →
      (GcCollector.step reached call).1 = reached := by
  intro reached
  have accounted : Accounted reached.1 reached.2 :=
    List.foldlRecOn (motive := fun state : GcCollector × DomainRegistry => Accounted state.1 state.2)
      calls _ (.start config) fun _ holds call _ => holds.step call
  exact ⟨accounted.charged, fun _ _ failed => step_of_error failed⟩

end FrankenEngine.Memory
