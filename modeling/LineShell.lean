import LineShell.Keyboard
import LineShell.Machine
import LineShell.Main
import LineShell.Session
import LineShell.Text.Utf8
import LineShell.Proofs.Acceptance
import LineShell.Proofs.Scanning
import LineShell.Proofs.Tiling
import LineShell.Proofs.Quoting
import LineShell.Proofs.Colouring
import LineShell.Proofs.Chaining
import LineShell.Proofs.Effects
import LineShell.Proofs.Finality
import LineShell.Proofs.Diagnosis
import LineShell.Proofs.Frame
import LineShell.Proofs.Seams
import LineShell.Proofs.Unplaced
import LineShell.Proofs.Joining
import LineShell.Proofs.Lines
import LineShell.Proofs.LineMode
import LineShell.Proofs.Editing
import LineShell.Proofs.Continuation
import LineShell.Proofs.Legible
import LineShell.Proofs.Glass
import LineShell.Proofs.Drawing
import LineShell.Proofs.Prompts
import LineShell.Proofs.Renderings
import LineShell.Proofs.QuotedWords
import LineShell.Proofs.Appending
import LineShell.Proofs.Ledger
import LineShell.Proofs.Secrecy
import LineShell.Proofs.Simulation
import LineShell.Proofs.Restoring
import LineShell.Proofs.Viability
import LineShell.Proofs.Places
import LineShell.Proofs.Newlines
import LineShell.Proofs.Spacing
import LineShell.Proofs.OpenLine
import LineShell.Proofs.Reel
import LineShell.Proofs.InRange
import LineShell.Proofs.BrokenOff
import LineShell.Proofs.Halves
import LineShell.Proofs.Regions
import LineShell.Proofs.WordMotion
import LineShell.Proofs.Settings
import LineShell.Proofs.Deliveries
import LineShell.Proofs.Keystrokes
import LineShell.Proofs.QuoteColours
import LineShell.Proofs.VariableLines
import LineShell.Proofs.Templates
import LineShell.Proofs.Tilde
