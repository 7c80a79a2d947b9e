import Tunlit.Lib.Runs
import Tunlit.Mux.Server
import Tunlit.Mux.Cli

/-! # A stream between the two ends

Both ends and the connection between them. Each end's `wire` is what it has sent and
the other has not received, first sent first. The stream is taken up after its OPEN
frame, when both ends know it; until then only the end that opened it can act. -/
namespace Tunlit.Mux.System
open Tunlit.Mux.Frames Tunlit.Mux.Server Tunlit.Mux.Cli Tunlit.Lib.Runs

structure Link where
  server : MuxStream := {}
  cli : CliStream := {}
deriving DecidableEq

inductive Event where
  | server (e : ServerEvent)
  | cli (e : CliEvent)
  | toServer
  | toCli
deriving DecidableEq

/-- The server takes frames when no call is under way and its socket has not closed. -/
def Link.toServer (l : Link) : Option Link :=
  match l.cli.wire with
  | [] => none
  | frame :: rest =>
    if l.server.stack = [] && !l.server.closed then
      some { server := l.server.onFrame frame, cli := { l.cli with wire := rest } }
    else none

def Link.toCli (l : Link) : Option Link :=
  match l.server.wire with
  | [] => none
  | frame :: rest => some { server := { l.server with wire := rest }, cli := l.cli.onFrame frame }

def Link.step (l : Link) : Event → Option Link
  | .server e => (l.server.step e).map fun s => { l with server := s }
  | .cli e => (l.cli.step e).map fun s => { l with cli := s }
  | .toServer => l.toServer
  | .toCli => l.toCli

def machine : Machine Link Event where
  init l := l = {}
  step := Link.step

abbrev Reachable : Link → Prop := machine.Reachable

/-- A step as one of the four kinds, with both ends before and behind it. -/
theorem step_cases {l l' : Link} {e : Event} (h : l.step e = some l') :
    (∃ s, (∃ a, l.server.step a = some s) ∧ l' = { l with server := s }) ∨
    (∃ c, (∃ a, l.cli.step a = some c) ∧ l' = { l with cli := c }) ∨
    (∃ f rest, l.cli.wire = f :: rest ∧
      l' = ⟨l.server.onFrame f, { l.cli with wire := rest }⟩) ∨
    (∃ f rest, l.server.wire = f :: rest ∧
      l' = ⟨{ l.server with wire := rest }, l.cli.onFrame f⟩) := by
  cases e with
  | server a =>
    simp only [Link.step, Option.map_eq_some_iff] at h
    obtain ⟨s, hs, rfl⟩ := h
    exact .inl ⟨s, ⟨a, hs⟩, rfl⟩
  | cli a =>
    simp only [Link.step, Option.map_eq_some_iff] at h
    obtain ⟨c, hc, rfl⟩ := h
    exact .inr (.inl ⟨c, ⟨a, hc⟩, rfl⟩)
  | toServer =>
    simp only [Link.step, Link.toServer] at h
    split at h
    · cases h
    · rename_i f rest hw
      rw [Option.ite_none_right_eq_some] at h
      obtain ⟨-, h⟩ := h
      cases h
      exact .inr (.inr (.inl ⟨f, rest, hw, rfl⟩))
  | toCli =>
    simp only [Link.step, Link.toCli] at h
    split at h
    · cases h
    · rename_i f rest hw
      cases h
      exact .inr (.inr (.inr ⟨f, rest, hw, rfl⟩))

end Tunlit.Mux.System
