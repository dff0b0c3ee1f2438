import Clither.Bmap
import Clither.Snake

/-!
# The snakes of the world

The server keeps the snakes of all players in a map from snake ids to snakes.
`worldSpawnSnake` takes the number of snakes plus one as the id of a new one: the
loop that looks for a hole in the ids counts and never looks at them.  If that
id belongs to a snake already, no new one is created, and the id is returned all
the same.
-/

namespace Clither

open Faults (bind_eq_ok)

/-- The instance behind `snake_bmap`. -/
def snakeBmap : BmapInstance where
  header := 16
  sizeofValue := 168

/-- `struct world`.  The radii of the world are never read. -/
abbrev World := Bmap snakeBmap Snake

/-- `world_init`. -/
def worldInit : World := none

/-- `world_create_snake`.  The return value of `snake_init` is ignored. -/
def worldCreateSnake (mem : Alloc) (world : World) (snakeId : UInt16) (spawnPos : QwPos) :
    Except Fault (World × BmapStatus) :=
  bmapEmplace mem world snakeId (emplaced (snakeInit mem spawnPos))

/-- The loop of `world_spawn_snake`, with `count` snakes in the world. -/
def spawnIdLoop (count : Nat) : Nat → UInt16 → UInt16 → UInt16
  | 0, _, snakeId => snakeId
  | turns + 1, i, snakeId =>
      if i.toNat ≠ count then
        if i.toNat + 1 ≠ snakeId.toNat then snakeId
        else spawnIdLoop count turns (i + 1) (snakeId + 1)
      else snakeId

/-- The id that `world_spawn_snake` takes.  0 is reserved to mean "invalid". -/
def spawnId (world : World) : UInt16 :=
  spawnIdLoop (bmapCount world) (bmapCount world) 0 1

/-- `world_spawn_snake`. -/
def worldSpawnSnake (mem : Alloc) (world : World) : Except Fault (World × UInt16) := do
  let snakeId := spawnId world
  let (world, _) ← worldCreateSnake mem world snakeId { x := 0, y := 0 }
  return (world, snakeId)

/-- `world_remove_snake`, which only logs a warning if there is no such snake. -/
def worldRemoveSnake (world : World) (snakeId : UInt16) : World :=
  bmapErase world snakeId

/-- `snake_bmap_find`, whose result is used without a check. -/
def findSnake (world : World) (snakeId : UInt16) : Except Fault Snake :=
  match bmapFind world snakeId with
  | some snake => .ok snake
  | none => .error .nullSnake

/-! ## Ids -/

/-- The loop counts to the number of snakes. -/
theorem spawnIdLoop_eq {count turns i : Nat} (hturns : i + turns = count) (hcount : count < 2 ^ 15) :
    spawnIdLoop count turns (UInt16.ofNat i) (UInt16.ofNat (i + 1)) = UInt16.ofNat (count + 1) := by
  induction turns generalizing i with
  | zero =>
      rw [spawnIdLoop, ← hturns, Nat.add_zero]
  | succ turns ih =>
      have hi : (UInt16.ofNat i).toNat = i :=
        UInt16.toNat_ofNat_of_lt' (by show i < 65536; omega)
      have hnext : (UInt16.ofNat (i + 1)).toNat = i + 1 :=
        UInt16.toNat_ofNat_of_lt' (by show i + 1 < 65536; omega)
      rw [spawnIdLoop, hi, hnext, if_pos (by omega), if_neg (by omega), ← UInt16.ofNat_one,
        ← UInt16.ofNat_add, ← UInt16.ofNat_add]
      exact ih (by omega)

/-- **The id of a new snake** is the number of snakes plus one. -/
theorem spawnId_eq (world : World) : spawnId world = UInt16.ofNat (bmapCount world + 1) :=
  spawnIdLoop_eq (i := 0) (Nat.zero_add _) (bmapCount_lt world)

theorem spawnId_ne_zero (world : World) : spawnId world ≠ 0 := by
  intro h
  have hlt := bmapCount_lt world
  have := congrArg UInt16.toNat h
  rw [spawnId_eq, UInt16.toNat_ofNat_of_lt' (by show _ < 65536; omega)] at this
  simp at this

/-! ## What the functions do -/

theorem findSnake_eq_ok {world : World} {snakeId : UInt16} {snake : Snake} :
    findSnake world snakeId = .ok snake ↔ bmapFind world snakeId = some snake := by
  unfold findSnake
  cases bmapFind world snakeId <;> simp

theorem findSnake_eq_error {world : World} {snakeId : UInt16} {f : Fault} :
    findSnake world snakeId = .error f ↔ snakeId ∉ bmapKeys world ∧ f = .nullSnake := by
  rw [← bmapFind_eq_none]
  unfold findSnake
  cases bmapFind world snakeId <;> simp [eq_comm]

theorem findSnake_of_mem {world : World} {snakeId : UInt16} (h : snakeId ∈ bmapKeys world) :
    ∃ snake, findSnake world snakeId = .ok snake := by
  obtain ⟨snake, hsnake⟩ := mem_bmapKeys.mp h
  exact ⟨snake, findSnake_eq_ok.mpr hsnake⟩

/-- What a call of `world_spawn_snake` that returns has done. -/
inductive Spawned (mem : Alloc) (world : World) : World → Prop where
  /-- The id is taken: the world stays as it is. -/
  | taken (hkey : spawnId world ∈ bmapKeys world) : Spawned mem world world
  /-- There is no memory for another entry. -/
  | refused (hkey : spawnId world ∉ bmapKeys world) (hroom : bmapHasRoom mem world = false) :
      Spawned mem world world
  | new {world' : World} {snake : Snake} (hkey : spawnId world ∉ bmapKeys world)
      (hinit : snakeInit mem { x := 0, y := 0 } = some snake)
      (hkeys : (bmapKeys world').Perm (spawnId world :: bmapKeys world))
      (hfind : ∀ k, bmapFind world' k = if k = spawnId world then some snake else bmapFind world k) :
      Spawned mem world world'

theorem worldSpawnSnake_spec {mem : Alloc} {world world' : World} {snakeId : UInt16}
    (h : worldSpawnSnake mem world = .ok (world', snakeId)) :
    snakeId = spawnId world ∧ Spawned mem world world' := by
  unfold worldSpawnSnake at h
  obtain ⟨⟨w, status⟩, hcreate, h⟩ := bind_eq_ok.mp h
  cases h
  refine ⟨rfl, ?_⟩
  cases bmapEmplace_spec hcreate with
  | present hkey => exact .taken hkey
  | oom hkey hroom => exact .refused hkey hroom
  | @new bmap' value hkey hinit hkeys hfind =>
      have hsnake : snakeInit mem { x := 0, y := 0 } = some value := by
        cases hs : snakeInit mem { x := 0, y := 0 } with
        | none => rw [hs] at hinit; cases hinit
        | some v => rw [hs] at hinit; cases hinit; rfl
      exact .new hkey hsnake hkeys hfind

/-- The call fails to return if the map is lost, or if the snake gets no memory. -/
theorem worldSpawnSnake_error {mem : Alloc} {world : World} {f : Fault}
    (h : worldSpawnSnake mem world = .error f) : f = .danglingMap ∨ f = .nullSegment := by
  unfold worldSpawnSnake at h
  dsimp only at h
  cases hcreate : worldCreateSnake mem world (spawnId world) { x := 0, y := 0 } with
  | ok r =>
      rw [hcreate] at h
      cases h
  | error f' =>
      rw [hcreate] at h
      cases h
      rcases bmapEmplace_error hcreate with hlost | hinit
      · exact Or.inl hlost
      · cases hs : snakeInit mem { x := 0, y := 0 } with
        | none =>
            rw [hs] at hinit
            cases hinit
            exact Or.inr rfl
        | some snake =>
            rw [hs] at hinit
            cases hinit

end Clither
