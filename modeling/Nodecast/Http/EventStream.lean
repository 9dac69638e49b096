import Nodecast.Event.Wire
import Nodecast.Hub.State

/-!
# Event streams

A node reads its stream as server-sent events. Each event is one message, and a comment keeps an
idle stream alive.
-/

namespace Nodecast.Http

/-- Splits a text behind each line break. The break may have a carriage return before it. -/
def linesOf (current : List Char) : List Char → List (List Char)
  | [] => if current.isEmpty then [] else [current.reverse]
  | '\r' :: '\n' :: rest => current.reverse :: linesOf [] rest
  | '\n' :: rest => current.reverse :: linesOf [] rest
  | c :: rest => linesOf (c :: current) rest

/-- A message has a data line for each line of its text, and an empty line at its end. -/
def message (text : String) : List Char :=
  (linesOf [] text.toList).flatMap (fun line => "data: ".toList ++ line ++ ['\n']) ++ ['\n']

def keepAliveComment : List Char := [':', '\n', '\n']

def eventMessage (e : Event) : List Char := message e.encode

/-- A stream that is being read. Times are in milliseconds. -/
structure EventStream where
  generation : Nat
  opened : Nat
  /-- How many comments were sent. -/
  comments : Nat := 0
deriving DecidableEq, Repr

namespace EventStream

/-- Comments are due at fixed times after the opening, whatever else was sent. -/
def due (s : EventStream) (interval now : Nat) : Nat := (now - s.opened) / interval

/-- What the stream has to send now. A stream that has ended sends no more comments. -/
def read (s : EventStream) (h : Hub Event) (now : Nat) :
    (List Char × Bool) × EventStream × Hub Event :=
  let (events, h) := h.drain s.generation
  let text := events.flatMap eventMessage
  if h.hasEnded s.generation then ((text, true), s, h)
  else
    let due := s.due h.config.keepAlive.millis now
    let comments := (List.replicate (due - s.comments) keepAliveComment).flatten
    ((text ++ comments, false), { s with comments := due }, h)

end EventStream

end Nodecast.Http
