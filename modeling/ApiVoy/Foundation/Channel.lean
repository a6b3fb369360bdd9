/-
# Bounded channels

A channel holds a bounded number of items in the order in which they were sent.
Sending to a full channel and receiving from an empty one are not possible, so a task
that wants to do so waits.
-/

import Mathlib.Data.List.Basic

namespace ApiVoy.Foundation

structure Channel (capacity : Nat) (α : Type) where
  items : List α
  bounded : items.length ≤ capacity

namespace Channel

variable {capacity : Nat} {α : Type} {channel channel' : Channel capacity α} {a : α}

def empty : Channel capacity α := ⟨[], Nat.zero_le _⟩

def send (channel : Channel capacity α) (a : α) : Option (Channel capacity α) :=
  if h : channel.items.length < capacity then
    some ⟨channel.items ++ [a], by rw [List.length_append]; exact h⟩
  else none

def receive (channel : Channel capacity α) : Option (α × Channel capacity α) :=
  match channel with
  | ⟨[], _⟩ => none
  | ⟨a :: rest, bounded⟩ => some (a, ⟨rest, Nat.le_of_succ_le bounded⟩)

theorem items_of_send (h : channel.send a = some channel') :
    channel'.items = channel.items ++ [a] := by
  rw [send] at h
  split at h
  · cases h
    rfl
  · cases h

theorem items_of_receive (h : channel.receive = some (a, channel')) :
    channel.items = a :: channel'.items := by
  obtain ⟨items, bounded⟩ := channel
  cases items with
  | nil => cases h
  | cons b rest =>
    cases h
    rfl

theorem send_eq_none_iff : channel.send a = none ↔ channel.items.length = capacity := by
  have hbounded := channel.bounded
  rw [send]
  split
  · next hlt => exact ⟨nofun, fun heq => absurd heq (Nat.ne_of_lt hlt)⟩
  · next hnot => exact ⟨fun _ => Nat.le_antisymm hbounded (Nat.le_of_not_lt hnot), fun _ => rfl⟩

theorem receive_eq_none_iff : channel.receive = none ↔ channel.items = [] := by
  obtain ⟨items, bounded⟩ := channel
  cases items with
  | nil => exact ⟨fun _ => rfl, fun _ => rfl⟩
  | cons b rest => exact ⟨nofun, nofun⟩

end Channel

end ApiVoy.Foundation
