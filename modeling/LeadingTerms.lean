import LeadingTerms.Main
import LeadingTerms.Round
import LeadingTerms.Session
import LeadingTerms.Text.Encoding
import LeadingTerms.Proofs.Sequence
import LeadingTerms.Proofs.Console
import LeadingTerms.Proofs.Dialogue
import LeadingTerms.Proofs.Literal
import LeadingTerms.Proofs.Scan
import LeadingTerms.Proofs.Arguments
import LeadingTerms.Proofs.Command
import LeadingTerms.Proofs.Completion
import LeadingTerms.Proofs.Program
import LeadingTerms.Proofs.Reading
import LeadingTerms.Proofs.Session
import LeadingTerms.Proofs.Help
import LeadingTerms.Proofs.Diagnosis
import LeadingTerms.Proofs.Turns
import LeadingTerms.Proofs.Decimal
import LeadingTerms.Proofs.Dictation
import LeadingTerms.Proofs.Naming
import LeadingTerms.Proofs.Quoted
import LeadingTerms.Proofs.Record
import LeadingTerms.Proofs.Diagnostics
import LeadingTerms.Proofs.Transcript
import LeadingTerms.Proofs.Loop
import LeadingTerms.Proofs.Exactness
import LeadingTerms.Proofs.Asking
import LeadingTerms.Proofs.Messages
