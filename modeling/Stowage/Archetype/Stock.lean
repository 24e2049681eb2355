import Stowage.Archetype.Freeze
import Stowage.Archetype.Registry

/-!
# Stock archetypes

The usual game inventories, made with the same builders that are open to everyone. All of them are
registered under one namespace.
-/

namespace Stowage

set_option autoImplicit false

namespace Stock

def group : String := "minecraft"

/-- The hotbar is filled before the rest of a player's main inventory. -/
def hotbarPriority : Int := 1050

def named (b : Builder) (id : String) : Except Refusal Archetype := b.freeze (some ⟨group, id⟩)

def gridOf (columns rows : Nat) (a : Archetype) : Builder :=
  (Builder.grid columns rows).cells columns rows a

def rowOf (n : Nat) (a : Archetype) : Builder :=
  (List.range n).foldl (fun b _ => b.add a defaultPriority) (Builder.ordered.capacity n)

def addAll (b : Builder) (as : List Archetype) : Builder :=
  as.foldl (fun acc a => acc.add a defaultPriority) b

/-- In a furnace a child's role is told by its parent. -/
def furnaceRoles (b : Builder) : Builder :=
  ["input", "fuel", "output"].zipIdx.foldl
    (fun acc (role, i) => acc.childProperty i (.custom "furnace_role") (.text role)) b

/-- A shift-click in a player's inventory tries the armor and the off hand first. -/
def playerShiftClick : ShiftClick :=
  .player ⟨group, "player_main"⟩ [⟨group, "armor"⟩, ⟨group, "offhand"⟩]

/-- The whole set, in the order in which it is registered. -/
def archetypes (rules : ItemRules) : Except Refusal (List Archetype) := do
  let slot ← named Builder.slot "slot"
  let inputSlot ← named Builder.slot "input_slot"
  let outputSlot ← named Builder.slot "output_slot"
  let fuelSlot ← named (Builder.slot.filter (rules.resolve (.tag "fuel"))) "fuel_slot"
  let helmet ← named (Builder.slot.equipment .headwear) "helmet"
  let chestplate ← named (Builder.slot.equipment .chestplate) "chestplate"
  let leggings ← named (Builder.slot.equipment .leggings) "leggings"
  let boots ← named (Builder.slot.equipment .boots) "boots"
  let offhand ← named (Builder.slot.equipment .offHand) "offhand"
  let hotbar ← named (rowOf 9 slot) "hotbar"
  let mainGrid ← named (gridOf 9 3 slot) "main_grid"
  let playerMain ← named
    (((Builder.rows 9).subGrid 0 mainGrid defaultPriority).row 3 hotbar hotbarPriority)
    "player_main"
  let armor ← named
    (addAll (Builder.ordered.capacity 4) [helmet, chestplate, leggings, boots]) "armor"
  let player ← named
    ((addAll (Builder.ordered.name "container.inventory") [playerMain, armor, offhand]).shiftClick
      playerShiftClick) "player"
  let chest ← named ((gridOf 9 3 slot).name "container.chest") "chest"
  let shulkerBox ← named ((Builder.ofArchetype chest).name "container.shulkerBox") "shulker_box"
  let enderChest ← named ((Builder.ofArchetype chest).name "container.enderchest") "ender_chest"
  let doubleChest ← named
    ((((Builder.rows 9).name "container.chestDouble").subGrid 0 chest defaultPriority).subGrid 3
      chest defaultPriority) "double_chest"
  let dispenser ← named ((gridOf 3 3 slot).name "container.dispenser") "dispenser"
  let jukebox ← named Builder.slot "jukebox"
  let furnace ← named
    (furnaceRoles (addAll ((Builder.ordered.name "container.furnace").capacity 3)
      [inputSlot, fuelSlot, outputSlot])) "furnace"
  let craftingGrid ← named (gridOf 3 3 inputSlot) "crafting_grid"
  let craftingTable ← named
    ((((Builder.ordered.name "container.crafting").capacity 10).add outputSlot
      (defaultPriority - 1)).add craftingGrid defaultPriority) "crafting_table"
  return [slot, inputSlot, outputSlot, fuelSlot, helmet, chestplate, leggings, boots, offhand,
    hotbar, mainGrid, playerMain, armor, player, chest, shulkerBox, enderChest, doubleChest,
    dispenser, jukebox, furnace, craftingGrid, craftingTable]

/-- Registers the whole set. An archetype that is refused ends it, and the ones before stay. -/
def register (r : Registry) (set : List Archetype) : Registry × List LogRecord × Option Refusal :=
  match r.registerEach set with
  | (r', notes, none) => (r', notes ++ [.info s!"Registered {set.length} stock archetypes"], none)
  | refused => refused

end Stock

end Stowage
