import Placeholders.Folder
import Placeholders.Main
import Placeholders.Proofs.Accounting
import Placeholders.Proofs.Transparency
import Placeholders.Proofs.Anonymity
import Placeholders.Proofs.Recognition
import Placeholders.Proofs.Scanning
import Placeholders.Proofs.Layout
import Placeholders.Proofs.Splicing
import Placeholders.Proofs.Substitution
import Placeholders.Proofs.Outage
import Placeholders.Proofs.Sharing
import Placeholders.Proofs.Reading
import Placeholders.Proofs.Verdict
import Placeholders.Proofs.Privacy
import Placeholders.Proofs.Retention
import Placeholders.Proofs.Succession
import Placeholders.Proofs.Naming
import Placeholders.Proofs.Outcome
import Placeholders.Proofs.Acceptance
import Placeholders.Proofs.Rendering
import Placeholders.Proofs.Coexistence
import Placeholders.Proofs.Log
import Placeholders.Proofs.Listing
import Placeholders.Proofs.Roles
import Placeholders.Proofs.Passage
