import Lineup.Json.Spots
import Lineup.Proofs.Roster.Tangle
import Lineup.Proofs.Roster.Baseless
import Lineup.Proofs.Roster.Survivors
import Lineup.Proofs.Roster.Ties
import Lineup.Proofs.Roster.Restated
import Lineup.Proofs.Roster.Unbroken
import Lineup.Proofs.Network.Preorder
import Lineup.Proofs.Recency.Identity
import Lineup.Proofs.Network.Residue
import Lineup.Proofs.Network.Walk
import Lineup.Proofs.Listing.AfterSide
import Lineup.Proofs.Roster.AfterSide
import Lineup.Proofs.Listing.Aside
import Lineup.Proofs.Roster.Aside
import Lineup.Proofs.Roster.Between
import Lineup.Proofs.Network.Places
import Lineup.Proofs.Recency.Tally
import Lineup.Proofs.Json.Forms
import Lineup.Proofs.Refusal.Message
import Lineup.Proofs.Listing.Laying
