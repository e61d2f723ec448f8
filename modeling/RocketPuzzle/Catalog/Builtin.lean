import RocketPuzzle.Level

/-! # The built-in curriculum

A tutorial and twenty lessons: first steps, loops and patterns, and fuel.
-/
namespace RocketPuzzle.Catalog

def tutorial : Level where
  id := 0
  title := "Tutorial"
  description := "Drag a 'move' block under the start block and press run."
  hint := "Press 'got it' to continue."
  gridSize := 5
  start := ⟨1, 2⟩
  startHeading := .east
  goal := ⟨3, 2⟩
  toolbox := [.start, .move]
  idealBlockCount := 2

def lessons : List Level := [
  { id := 1
    title := "Lesson 1: First Step"
    description := "Welcome! Attach a 'move' block and press run."
    hint := "Move forward once."
    gridSize := 5
    start := ⟨1, 2⟩
    startHeading := .east
    goal := ⟨2, 2⟩
    toolbox := [.start, .move]
    idealBlockCount := 2 },
  { id := 2
    title := "Lesson 2: The Long Road"
    description := "The star is far away. Try moving forward three times."
    hint := "move, move, move"
    gridSize := 5
    start := ⟨1, 2⟩
    startHeading := .east
    goal := ⟨4, 2⟩
    toolbox := [.start, .move]
    idealBlockCount := 4 },
  { id := 3
    title := "Lesson 3: Turn Left"
    description := "There is a wall ahead. Turn left first."
    hint := "Turn left, then move."
    gridSize := 5
    start := ⟨2, 4⟩
    startHeading := .north
    goal := ⟨4, 4⟩
    obstacles := [⟨2, 3⟩, ⟨2, 2⟩]
    toolbox := [.start, .move, .turnLeft, .turnRight]
    idealBlockCount := 5 },
  { id := 4
    title := "Lesson 4: Turn Right"
    description := "Now try turning right."
    hint := "Turn right, then move."
    gridSize := 5
    start := ⟨1, 1⟩
    startHeading := .east
    goal := ⟨3, 2⟩
    obstacles := [⟨2, 1⟩, ⟨3, 1⟩]
    toolbox := [.start, .move, .turnLeft, .turnRight]
    idealBlockCount := 4 },
  { id := 5
    title := "Lesson 5: Round and Round"
    description := "A long corridor. Let a 'repeat' block do the walking (4 cells)."
    hint := "Wrap a move block inside a repeat block."
    gridSize := 5
    start := ⟨0, 2⟩
    startHeading := .east
    goal := ⟨4, 2⟩
    toolbox := [.start, .move, .turnLeft, .turnRight, .repeated]
    idealBlockCount := 3 },
  { id := 6
    title := "Lesson 6: Staircase"
    description := "Climb the stairs to the star: move, turn, move, turn."
    hint := "Build it one step at a time."
    gridSize := 5
    start := ⟨0, 4⟩
    startHeading := .east
    goal := ⟨3, 1⟩
    obstacles := [⟨1, 4⟩, ⟨2, 4⟩, ⟨2, 3⟩, ⟨3, 3⟩, ⟨3, 2⟩]
    toolbox := [.start, .move, .turnLeft, .turnRight]
    idealBlockCount := 7 },
  { id := 7
    title := "Lesson 7: U-Turn"
    description := "Walk around the wall in a U shape."
    hint := "Go down, turn, go up."
    gridSize := 5
    start := ⟨1, 1⟩
    startHeading := .south
    goal := ⟨3, 1⟩
    obstacles := [⟨2, 1⟩, ⟨2, 2⟩, ⟨2, 0⟩]
    toolbox := [.start, .move, .turnLeft, .turnRight]
    idealBlockCount := 8 },
  { id := 8
    title := "Lesson 8: Around the Block"
    description := "A building is in the way. Walk around it to reach the star."
    hint := "Either side works."
    gridSize := 5
    start := ⟨2, 4⟩
    startHeading := .north
    goal := ⟨2, 0⟩
    obstacles := [⟨2, 1⟩, ⟨2, 2⟩, ⟨2, 3⟩, ⟨1, 2⟩, ⟨3, 2⟩]
    toolbox := [.start, .move, .turnLeft, .turnRight, .repeated]
    idealBlockCount := 10 },
  { id := 9
    title := "Lesson 9: Spiral"
    description := "Spiral inwards without touching the walls."
    hint := "Keep turning right and enter through the gap at the bottom."
    gridSize := 5
    start := ⟨0, 0⟩
    startHeading := .east
    goal := ⟨2, 2⟩
    obstacles := [⟨1, 1⟩, ⟨2, 1⟩, ⟨3, 1⟩, ⟨3, 2⟩, ⟨3, 3⟩, ⟨1, 3⟩, ⟨1, 2⟩]
    toolbox := [.start, .move, .turnLeft, .turnRight]
    idealBlockCount := 12 },
  { id := 10
    title := "Lesson 10: A Real Maze"
    description := "Find your way to the star. There is always a way through."
    hint := "Head down first, then turn right."
    gridSize := 5
    start := ⟨0, 0⟩
    startHeading := .east
    goal := ⟨4, 4⟩
    obstacles := [⟨1, 0⟩, ⟨2, 0⟩, ⟨3, 0⟩, ⟨1, 2⟩, ⟨2, 2⟩, ⟨3, 2⟩, ⟨1, 3⟩, ⟨1, 4⟩]
    toolbox := [.start, .move, .turnLeft, .turnRight]
    idealBlockCount := 14 },
  { id := 11
    title := "Lesson 11: Looping Stairs"
    description := "A very long staircase. Use a loop to climb it."
    hint := "repeat (move, turn right, move, turn left)"
    gridSize := 5
    start := ⟨0, 4⟩
    startHeading := .north
    goal := ⟨3, 1⟩
    obstacles := [⟨0, 0⟩, ⟨1, 0⟩, ⟨2, 0⟩, ⟨3, 0⟩, ⟨1, 2⟩, ⟨2, 2⟩, ⟨3, 2⟩, ⟨4, 2⟩]
    toolbox := [.start, .move, .turnLeft, .turnRight, .repeated]
    idealBlockCount := 6 },
  { id := 12
    title := "Lesson 12: Back Door"
    description := "Walk around and reach the star from behind."
    hint := "Go past it first, then turn back."
    gridSize := 5
    start := ⟨0, 2⟩
    startHeading := .east
    goal := ⟨2, 2⟩
    obstacles := [⟨1, 2⟩, ⟨1, 1⟩, ⟨1, 3⟩]
    toolbox := [.start, .move, .turnLeft, .turnRight]
    idealBlockCount := 8 },
  { id := 13
    title := "Lesson 13: Zigzag"
    description := "Zigzag past the obstacles."
    hint := "A loop can help."
    gridSize := 5
    start := ⟨0, 2⟩
    startHeading := .east
    goal := ⟨4, 2⟩
    obstacles := [⟨1, 2⟩, ⟨3, 2⟩]
    toolbox := [.start, .move, .turnLeft, .turnRight, .repeated]
    idealBlockCount := 8 },
  { id := 14
    title := "Lesson 14: Brain Teaser"
    description := "One last test before the fuel missions. Use everything you learned."
    hint := "Plan carefully."
    gridSize := 5
    start := ⟨0, 0⟩
    startHeading := .south
    goal := ⟨4, 4⟩
    obstacles := [⟨1, 0⟩, ⟨1, 1⟩, ⟨3, 3⟩, ⟨3, 4⟩, ⟨0, 3⟩, ⟨4, 1⟩]
    toolbox := [.start, .move, .turnLeft, .turnRight, .repeated]
    idealBlockCount := 10 },
  { id := 15
    title := "Lesson 15: Power Up"
    description := "New mission! Collect the fuel first, then head for the star."
    hint := "Walk to the tank, use 'collect', then walk to the star."
    gridSize := 5
    start := ⟨0, 2⟩
    startHeading := .east
    goal := ⟨4, 2⟩
    fuel := some ⟨2, 2⟩
    toolbox := [.start, .move, .turnLeft, .turnRight, .collect, .repeated]
    idealBlockCount := 5 },
  { id := 16
    title := "Lesson 16: Roadside Stop"
    description := "The fuel is off the direct route. Stop by and fill up first."
    hint := "Turn towards the fuel first."
    gridSize := 5
    start := ⟨2, 4⟩
    startHeading := .north
    goal := ⟨2, 0⟩
    fuel := some ⟨4, 2⟩
    obstacles := [⟨2, 2⟩]
    toolbox := [.start, .move, .turnLeft, .turnRight, .collect, .repeated]
    idealBlockCount := 8 },
  { id := 17
    title := "Lesson 17: The Corner"
    description := "The fuel is hidden in a corner. Go and get it."
    hint := "Walk into the corner for the fuel, then back out."
    gridSize := 5
    start := ⟨0, 0⟩
    startHeading := .east
    goal := ⟨4, 4⟩
    fuel := some ⟨0, 4⟩
    obstacles := [⟨1, 1⟩, ⟨2, 2⟩, ⟨3, 3⟩]
    toolbox := [.start, .move, .turnLeft, .turnRight, .collect, .repeated]
    idealBlockCount := 10 },
  { id := 18
    title := "Lesson 18: Surrounded"
    description := "The fuel sits inside a wall. Get in, fill up and find the way out."
    hint := "You have to walk around to get in."
    gridSize := 5
    start := ⟨0, 2⟩
    startHeading := .east
    goal := ⟨4, 2⟩
    fuel := some ⟨2, 2⟩
    obstacles := [⟨2, 1⟩, ⟨2, 3⟩, ⟨3, 1⟩, ⟨3, 2⟩, ⟨3, 3⟩]
    toolbox := [.start, .move, .turnLeft, .turnRight, .collect, .repeated]
    idealBlockCount := 9 },
  { id := 19
    title := "Lesson 19: Two Minds"
    description := "A fork in the road. Fetch the fuel and come back, or loop around?"
    hint := "Work out which way is shorter."
    gridSize := 5
    start := ⟨2, 4⟩
    startHeading := .north
    goal := ⟨2, 0⟩
    fuel := some ⟨4, 2⟩
    obstacles := [⟨2, 1⟩, ⟨2, 2⟩, ⟨2, 3⟩]
    toolbox := [.start, .move, .turnLeft, .turnRight, .collect, .repeated]
    idealBlockCount := 10 },
  { id := 20
    title := "Lesson 20: Final Mission"
    description := "The last level! Fill up and race to the star."
    hint := "You can do it!"
    gridSize := 5
    start := ⟨0, 0⟩
    startHeading := .east
    goal := ⟨4, 0⟩
    fuel := some ⟨2, 4⟩
    obstacles := [⟨1, 1⟩, ⟨3, 1⟩, ⟨1, 3⟩, ⟨3, 3⟩, ⟨2, 2⟩]
    toolbox := [.start, .move, .turnLeft, .turnRight, .collect, .repeated]
    idealBlockCount := 12 }]

def builtin : Curriculum := ⟨tutorial, lessons⟩

end RocketPuzzle.Catalog
